import OverProto.Transport.ReliableCalls

/-!
# The RTT estimator against its unbounded recurrence

`updateRTT` keeps `SRTT`, `RTTVar` and `RTO` in `uint32` fields. The estimator it implements
is a recurrence over unbounded integers (`RttRef`, `rttRefRun`): the first sample `R` gives
`srtt = R` and `rttVar = R / 2`, and each later one gives `rttVar = (3 rttVar + |srtt - R|) / 4`
and `srtt = (7 srtt + R) / 8`, with `rto = srtt + 4 rttVar` throughout.

While every sample is below `2^29` ms, no product or sum of the update leaves 32 bits. The
invariant `Tracks` says the fields equal the recurrence and stay below `2^29`, and
`updateRtt_first`, `Tracks.updateRtt` and `Tracks.foldl` carry it over any sequence of
samples. Beyond that the fields wrap. An acknowledgement that `ProcessACK` times at
`2^32 - 1` ms gives a first sample whose `RTO` wraps below `SRTT` (`updateRtt_tracks_reference`).
-/

namespace OverProto

/-! ## The recurrence over unbounded integers -/

/-- The smoothed RTT and its variation, over unbounded integers. -/
structure RttRef where
  srtt : Int
  rttVar : Int
deriving DecidableEq, Repr

/-- The timeout of the recurrence: `srtt + 4 rttVar`. -/
def RttRef.rto (s : RttRef) : Int := s.srtt + 4 * s.rttVar

/-- The first sample. -/
def rttRefFirst (r : Int) : RttRef := ⟨r, r / 2⟩

/-- A later sample: the variation from the old `srtt`, then the new `srtt`. -/
def rttRefNext (s : RttRef) (r : Int) : RttRef :=
  ⟨(7 * s.srtt + r) / 8, (3 * s.rttVar + (s.srtt - r).natAbs) / 4⟩

/-- The recurrence after the samples, none before the first. -/
def rttRefRun : List Int → Option RttRef
  | [] => none
  | r :: rest => some (rest.foldl rttRefNext (rttRefFirst r))

/-! ## The `uint32` fields follow it below `2^29` -/

/-- The statistics have a sample and equal the recurrence `s`, whose values are below `2^29`. -/
structure Tracks (stats : RttStats) (s : RttRef) : Prop where
  sampled : stats.samplesCount ≠ 0
  srtt : (stats.srtt.toNat : Int) = s.srtt
  rttVar : (stats.rttVar.toNat : Int) = s.rttVar
  rto : (stats.rto.toNat : Int) = s.rto
  srtt_lt : s.srtt < 2 ^ 29
  rttVar_lt : s.rttVar < 2 ^ 29

/-- The first sample, below `2^29`, starts the recurrence. -/
theorem updateRtt_first (ctx : ReliableContext) (fresh : ctx.rtt.samplesCount = 0)
    (r : BitVec 32) (small : r.toNat < 2 ^ 29) :
    Tracks (ctx.updateRtt r).rtt (rttRefFirst r.toNat) := by
  have four : (4 : BitVec 32).toNat = 4 := rfl
  have two : (2 : BitVec 32).toNat = 2 := rfl
  simp only [ReliableContext.updateRtt, fresh, if_true]
  constructor <;>
    simp only [rttRefFirst, RttRef.rto, BitVec.toNat_add, BitVec.toNat_mul, BitVec.toNat_udiv,
      four, two, ne_eq, Nat.add_one_ne_zero, not_false_eq_true] <;>
    omega

/-- The `delta` of `updateRTT` is `|srtt - r|`: each branch subtracts the smaller value. -/
theorem toNat_delta (srtt r : BitVec 32) :
    (if r > srtt then r - srtt else srtt - r).toNat = ((srtt.toNat : Int) - r.toNat).natAbs := by
  split <;> rename_i above <;> simp only [gt_iff_lt, BitVec.lt_def] at above <;>
    rw [BitVec.toNat_sub_of_le (BitVec.le_def.mpr (by omega))] <;> omega

/-- A later sample below `2^29` keeps the fields equal to the recurrence. -/
theorem Tracks.updateRtt {ctx : ReliableContext} {s : RttRef} (tracks : Tracks ctx.rtt s)
    (r : BitVec 32) (small : r.toNat < 2 ^ 29) :
    Tracks (ctx.updateRtt r).rtt (rttRefNext s r.toNat) := by
  obtain ⟨sampled, srtt, rttVar, -, srtt_lt, rttVar_lt⟩ := tracks
  obtain ⟨D, codeDelta, specDelta, delta_lt⟩ : ∃ D : Nat,
      (if r > ctx.rtt.srtt then r - ctx.rtt.srtt else ctx.rtt.srtt - r).toNat = D ∧
        ((s.srtt - r.toNat).natAbs : Int) = D ∧ D < 2 ^ 29 :=
    ⟨_, toNat_delta _ _, by rw [← srtt], by omega⟩
  have three : (3 : BitVec 32).toNat = 3 := rfl
  have four : (4 : BitVec 32).toNat = 4 := rfl
  have seven : (7 : BitVec 32).toNat = 7 := rfl
  have eight : (8 : BitVec 32).toNat = 8 := rfl
  simp only [ReliableContext.updateRtt, if_neg sampled]
  constructor <;>
    simp only [rttRefNext, RttRef.rto, BitVec.toNat_add, BitVec.toNat_mul, BitVec.toNat_udiv,
      codeDelta, specDelta, three, four, seven, eight, ne_eq, Nat.add_one_ne_zero,
      not_false_eq_true] <;>
    (try simp (disch := omega) only [Nat.mod_eq_of_lt]) <;>
    omega

/-- Over any sequence of samples below `2^29`, the fields equal the recurrence. -/
theorem Tracks.foldl {ctx : ReliableContext} {s : RttRef} (tracks : Tracks ctx.rtt s)
    (samples : List (BitVec 32)) (small : ∀ r ∈ samples, r.toNat < 2 ^ 29) :
    Tracks (samples.foldl ReliableContext.updateRtt ctx).rtt
      ((samples.map fun r => (r.toNat : Int)).foldl rttRefNext s) := by
  induction samples generalizing ctx s with
  | nil => exact tracks
  | cons r rest ih =>
    exact ih (tracks.updateRtt r (small r (.head _))) fun r' mem => small r' (.tail _ mem)

/-- From the initial statistics, over samples below `2^29` ms, the `uint32` fields equal the
recurrence after every sample, and `RTO ≥ SRTT`. A first sample of `2^32 - 1` ms, which
`ProcessACK` takes from an acknowledgement that many milliseconds after the send, makes `RTO`
wrap below `SRTT`. -/
theorem updateRtt_tracks_reference :
    (∀ (addr : String) (samples : List (BitVec 32)), (∀ r ∈ samples, r.toNat < 2 ^ 29) →
      ∀ s, rttRefRun (samples.map fun r => (r.toNat : Int)) = some s →
        let stats := (samples.foldl ReliableContext.updateRtt (newReliableContext addr)).rtt
        (stats.srtt.toNat : Int) = s.srtt ∧ (stats.rttVar.toNat : Int) = s.rttVar ∧
          (stats.rto.toNat : Int) = s.rto ∧ stats.srtt ≤ stats.rto) ∧
    (let ctx := Op.run [.send (newPacketHeader 0) [] 0 none, .send (newPacketHeader 0) [] 0 none,
        .processAck 1 4294967295] (newReliableContext "peer")
     Reachable ctx ∧ ctx.rtt.srtt = 4294967295 ∧ ctx.rtt.rto = 4294967291 ∧
       ctx.rtt.rto < ctx.rtt.srtt ∧ (rttRefRun [4294967295]).map RttRef.rto = some 12884901883) := by
  refine ⟨fun addr samples small s ran => ?_, (Reachable.init "peer").run _, by decide⟩
  cases samples with
  | nil => cases ran
  | cons r rest =>
    simp only [List.map_cons, rttRefRun, Option.some.injEq, List.foldl_cons] at ran ⊢
    subst ran
    obtain ⟨-, srtt, rttVar, rto, -, -⟩ :=
      (updateRtt_first (newReliableContext addr) rfl r (small r (.head _))).foldl rest
        fun r' mem => small r' (.tail _ mem)
    refine ⟨srtt, rttVar, rto, ?_⟩
    rw [BitVec.le_def]
    simp only [RttRef.rto] at rto
    omega

end OverProto
