/-
The window of the election timer.

Nothing validates the two bounds, so what the supplier computes depends on how they lie.
Where the upper bound is above the lower one the remainder has a divisor, the sum stays
below the upper bound, and every task is due within the window (`due_within_window_iff`).
Where they are equal, as for a timeout that is to be fixed, the first task already divides
by zero.  That one of the two is the case for every bound in order is all there is to know:
the supplier is handed from task to task and never changes.
-/
import RaftElection.Options
import RaftElection.Timed

namespace Raft

open Transition

/-! ### Arithmetic on `int` -/

namespace CInt

theorem fit_of_mem {i : Int} (hlo : -2 ^ 31 ≤ i) (hhi : i < 2 ^ 31) :
    ∃ x, fit i = .ok x ∧ x.toInt = i :=
  ⟨Int32.ofInt i, if_pos ⟨hlo, hhi⟩, Int32.toInt_ofInt_of_le hlo hhi⟩

theorem toInt_lt (x : Int32) : x.toInt < 2 ^ 31 := by
  have := Int32.toInt_lt x
  simpa using this

theorem rem_of_pos {x y : Int32} (hx : 0 ≤ x.toInt) (hy : 0 < y.toInt) :
    ∃ r, rem x y = .ok r ∧ r.toInt = x.toInt % y.toInt := by
  have hx31 := toInt_lt x
  have hy31 := toInt_lt y
  have hquot := Int.tdiv_le_self y.toInt hx
  have hquot0 := Int.tdiv_nonneg hx (Int.le_of_lt hy)
  have hrem0 := Int.emod_nonneg x.toInt (Int.ne_of_gt hy)
  have hrem := Int.emod_lt_of_pos x.toInt hy
  obtain ⟨q, hq, -⟩ := fit_of_mem (i := x.toInt.tdiv y.toInt) (by omega) (by omega)
  obtain ⟨r, hr, hval⟩ := fit_of_mem (i := x.toInt % y.toInt) (by omega) (by omega)
  refine ⟨r, ?_, hval⟩
  unfold rem
  rw [if_neg (by omega), hq, Int.tmod_eq_emod_of_nonneg hx]
  exact hr

theorem toNat_toUInt64 {x : Int32} (h : 0 ≤ x.toInt) : ((toUInt64 x).toNat : Int) = x.toInt := by
  have := toInt_lt x
  unfold toUInt64
  rw [UInt64.toNat_ofNat']
  omega

end CInt

namespace RawFSMOptions

/-! ### The supplier -/

variable {o : RawFSMOptions}

/-- With a window to choose from the supplier returns a point of it. -/
theorem electionInterval_of_lt (hlo : 0 ≤ o.electionTimeout.1.toInt)
    (hlt : o.electionTimeout.1.toInt < o.electionTimeout.2.toInt) (rand : Rand) :
    ∃ i, o.electionInterval rand = .ok i ∧
      (i.toNat : Int) = rand.value.toInt % (o.electionTimeout.2.toInt - o.electionTimeout.1.toInt)
        + o.electionTimeout.1.toInt := by
  have hhi := CInt.toInt_lt o.electionTimeout.2
  obtain ⟨gap, hgap, hgapVal⟩ := CInt.fit_of_mem
    (i := o.electionTimeout.2.toInt - o.electionTimeout.1.toInt) (by omega) (by omega)
  obtain ⟨r, hr, hrVal⟩ := CInt.rem_of_pos (y := gap) rand.nonneg (by omega)
  have hr0 := Int.emod_nonneg rand.value.toInt (b := gap.toInt) (by omega)
  have hrlt := Int.emod_lt_of_pos rand.value.toInt (b := gap.toInt) (by omega)
  obtain ⟨x, hx, hxVal⟩ := CInt.fit_of_mem
    (i := r.toInt + o.electionTimeout.1.toInt) (by omega) (by omega)
  refine ⟨CInt.toUInt64 x, ?_, ?_⟩
  · unfold electionInterval CInt.sub CInt.add
    simp only [hgap, Except.bind, hr, hx]
    rfl
  · rw [CInt.toNat_toUInt64 (by omega), hxVal, hrVal, hgapVal]

/-- An empty window leaves the remainder without a divisor. -/
theorem electionInterval_of_eq (heq : o.electionTimeout.1.toInt = o.electionTimeout.2.toInt)
    (rand : Rand) : o.electionInterval rand = .error .divisionByZero := by
  obtain ⟨gap, hgap, hgapVal⟩ := CInt.fit_of_mem
    (i := o.electionTimeout.2.toInt - o.electionTimeout.1.toInt) (by omega) (by omega)
  have hrem : CInt.rem rand.value gap = .error .divisionByZero := if_pos (by omega)
  unfold electionInterval CInt.sub
  simp only [hgap, Except.bind, hrem]

/-- The supplier of `Timed.lean`, where the bounds are known to be positive and in order. -/
def validated (o : RawFSMOptions) (hpos : 0 < o.electionTimeout.1.toInt)
    (hlt : o.electionTimeout.1.toInt < o.electionTimeout.2.toInt) : RaftFSMOptions where
  minTimeout := o.electionTimeout.1.toInt.toNat
  maxTimeout := o.electionTimeout.2.toInt.toNat
  heartBeatRate := o.heartBeatRate.toInt.toNat
  pos := by omega
  lt := by omega

theorem electionInterval_validated (hpos : 0 < o.electionTimeout.1.toInt)
    (hlt : o.electionTimeout.1.toInt < o.electionTimeout.2.toInt) (rand : Rand) :
    ∃ i, o.electionInterval rand = .ok i ∧
      i.toNat = (o.validated hpos hlt).interval rand.value.toInt.toNat .election := by
  obtain ⟨i, hi, hval⟩ := electionInterval_of_lt (Int.le_of_lt hpos) hlt rand
  refine ⟨i, hi, ?_⟩
  unfold RaftFSMOptions.interval validated
  obtain ⟨lo, hlo⟩ := Int.eq_ofNat_of_zero_le (Int.le_of_lt hpos)
  obtain ⟨hi, hhi⟩ := Int.eq_ofNat_of_zero_le (Int.le_trans (Int.le_of_lt hpos) (Int.le_of_lt hlt))
  obtain ⟨r, hr⟩ := Int.eq_ofNat_of_zero_le rand.nonneg
  have hgap : (hi : Int) - lo = (hi - lo : Nat) := by omega
  rw [hlo, hhi, hr, hgap] at hval
  simp only [hlo, hhi, hr, Int.toNat_natCast]
  exact_mod_cast hval

/-! ### The armed task -/

/-- A due time within the window that opens `lo` and closes `hi` milliseconds after `now`:
counted from `now`, and, unless the clock is about to run over, as a number. -/
structure InWindow (lo hi : Int) (now due : UInt64) : Prop where
  elapsed : lo ≤ (due - now).toNat ∧ ((due - now).toNat : Int) ≤ hi
  ordered : now.toNat + hi < 2 ^ 64 →
    now.toNat + lo ≤ due.toNat ∧ (due.toNat : Int) ≤ now.toNat + hi

theorem InWindow.add {lo hi : Int} {i : UInt64} (now : UInt64) (hlo : lo ≤ i.toNat)
    (hhi : (i.toNat : Int) ≤ hi) : InWindow lo hi now (now + i) where
  elapsed := by
    rw [UInt64.add_comm, UInt64.add_sub_cancel]
    exact ⟨hlo, hhi⟩
  ordered hroom := by
    rw [UInt64.toNat_add]
    omega

/-- The call does not fault, and a task that it arms is due within the window. -/
def ArmsInWindow (o : RawFSMOptions) (t : Option SuppliedTask) (x : Arming) : Prop :=
  ∃ t', o.arm t x = .ok t' ∧
    (Arms t x = true → ∃ task, t' = some task ∧
      InWindow o.electionTimeout.1.toInt o.electionTimeout.2.toInt x.now task.dueTime)

theorem create_eq_ok {interval : Rand → Except IntFault UInt64} {now i : UInt64} {rand : Rand}
    (h : interval rand = .ok i) :
    SuppliedTask.create interval now rand = .ok { interval := interval, dueTime := now + i } := by
  unfold SuppliedTask.create
  rw [h]
  rfl

/-- Without a window the timer cannot be started. -/
theorem start_of_eq (heq : o.electionTimeout.1.toInt = o.electionTimeout.2.toInt) (now : UInt64)
    (rand : Rand) : o.arm none (.start now rand) = .error .divisionByZero := by
  show (SuppliedTask.create o.electionInterval now rand).map some = _
  unfold SuppliedTask.create
  rw [electionInterval_of_eq heq rand]
  rfl

theorem interval_of_create {interval : Rand → Except IntFault UInt64} {now : UInt64} {rand : Rand}
    {t' : Option SuppliedTask} (h : (SuppliedTask.create interval now rand).map some = .ok t') :
    ∃ task, t' = some task ∧ task.interval = interval := by
  unfold SuppliedTask.create at h
  cases hi : interval rand with
  | error fault =>
      rw [hi] at h
      cases h
  | ok i =>
      rw [hi] at h
      exact ⟨_, (Except.ok.inj h).symm, rfl⟩

/-- Renewing a task is building it again. -/
theorem renew_eq (t : SuppliedTask) (now : UInt64) (rand : Rand) :
    t.renew now rand = SuppliedTask.create t.interval now rand := rfl

/-- The task of the timer, if there is one, has the supplier of the options. -/
def Supplied (o : RawFSMOptions) (t : Option SuppliedTask) : Prop :=
  ∀ task, t = some task → task.interval = o.electionInterval

theorem Supplied.arm {t t' : Option SuppliedTask} {x : Arming} (hstep : o.arm t x = .ok t')
    (h : Supplied o t) : Supplied o t' := by
  have hcreated : ∀ {interval now rand}, interval = o.electionInterval →
      (SuppliedTask.create interval now rand).map some = .ok t' → Supplied o t' := by
    intro interval now rand hinterval hcreate task htask
    obtain ⟨task', rfl, htask'⟩ := interval_of_create hcreate
    rw [← Option.some.inj htask, htask', hinterval]
  cases t with
  | none =>
      cases x with
      | start now rand => exact hcreated rfl hstep
      | reset | renew =>
          obtain rfl := Except.ok.inj hstep
          exact h
  | some t =>
      cases x with
      | start now rand =>
          obtain rfl := Except.ok.inj hstep
          exact h
      | reset now rand => exact hcreated (h t rfl) hstep
      | renew now rand => exact hcreated (h t rfl) hstep

theorem supplied_of_reachable {t : Option SuppliedTask} (h : (electionTimer o).Reachable t) :
    Supplied o t := by
  refine h.invariant ?_ (fun _ _ _ _ ht hstep => ht.arm hstep)
  intro t₀ ht₀ task htask
  cases ht₀.symm.trans htask

theorem armsInWindow_of_lt (hlo : 0 ≤ o.electionTimeout.1.toInt)
    (hlt : o.electionTimeout.1.toInt < o.electionTimeout.2.toInt) {t : Option SuppliedTask}
    (h : Supplied o t) (x : Arming) : ArmsInWindow o t x := by
  have hcreate : ∀ now rand, ∃ task, SuppliedTask.create o.electionInterval now rand = .ok task ∧
      InWindow o.electionTimeout.1.toInt o.electionTimeout.2.toInt now task.dueTime := by
    intro now rand
    obtain ⟨i, hi, hval⟩ := electionInterval_of_lt hlo hlt rand
    have hpos : 0 < o.electionTimeout.2.toInt - o.electionTimeout.1.toInt := by omega
    have hrem := Int.emod_nonneg rand.value.toInt (Int.ne_of_gt hpos)
    have hremlt := Int.emod_lt_of_pos rand.value.toInt hpos
    exact ⟨_, create_eq_ok hi, .add now (by omega) (by omega)⟩
  cases t with
  | none =>
      cases x with
      | start now rand =>
          obtain ⟨task, htask, hwindow⟩ := hcreate now rand
          exact ⟨some task, by rw [arm, htask]; rfl, fun _ => ⟨task, rfl, hwindow⟩⟩
      | reset | renew => exact ⟨none, rfl, fun hc => nomatch hc⟩
  | some t =>
      cases x with
      | start now rand => exact ⟨some t, rfl, fun hc => nomatch hc⟩
      | reset now rand | renew now rand =>
          obtain ⟨task, htask, hwindow⟩ := hcreate now rand
          refine ⟨some task, ?_, fun _ => ⟨task, rfl, hwindow⟩⟩
          simp only [arm, renew_eq, h t rfl, htask]
          rfl

end RawFSMOptions

/-- **The election timer is armed within its window exactly where there is one.**  For all
bounds that are not negative and in order, every call that arms the timer computes its due
time without a fault, and within the window, if and only if the bounds differ. -/
theorem due_within_window_iff (o : RaftOptions) (hlo : 0 ≤ o.electionTimeoutMs.1.toInt)
    (hle : o.electionTimeoutMs.1.toInt ≤ o.electionTimeoutMs.2.toInt) :
    (∀ t, (electionTimer o.createRaftFSM.2).Reachable t →
      ∀ x, o.createRaftFSM.2.ArmsInWindow t x) ↔
      o.electionTimeoutMs.1.toInt < o.electionTimeoutMs.2.toInt := by
  constructor
  · intro hall
    by_contra hge
    have heq : o.electionTimeoutMs.1.toInt = o.electionTimeoutMs.2.toInt := by omega
    obtain ⟨t', ht', -⟩ := hall none ⟨none, rfl, .refl none⟩ (.start 0 ⟨0, by decide⟩)
    have hfault := RawFSMOptions.start_of_eq (o := o.createRaftFSM.2) heq 0 ⟨0, by decide⟩
    cases hfault.symm.trans ht'
  · intro hlt t ht x
    exact RawFSMOptions.armsInWindow_of_lt (o := o.createRaftFSM.2) hlo hlt
      (RawFSMOptions.supplied_of_reachable ht) x

/-- The default of `RaftOptions`, at the first start of the timer. -/
theorem due_within_window_of_default :
    (RaftOptions.createRaftFSM
      { peers := threeServers, self := 1, self_mem := by decide }).2.ArmsInWindow none
        (.start 1000 ⟨1234, by decide⟩) := by
  have hwindow := (due_within_window_iff
    { peers := threeServers, self := 1, self_mem := by decide } (by decide) (by decide)).mpr
      (by decide)
  exact hwindow none ⟨none, rfl, .refl none⟩ _

/-- A timeout fixed at 150 ms: the first start of the timer divides by zero. -/
theorem fixed_timeout_faults :
    ∃ o : RaftOptions, o.electionTimeoutMs = (150, 150) ∧
      ∃ t, (electionTimer o.createRaftFSM.2).Reachable t ∧
        o.createRaftFSM.2.arm t (.start 1000 ⟨4, by decide⟩) = .error .divisionByZero :=
  ⟨{ peers := threeServers, self := 1, self_mem := by decide, electionTimeoutMs := (150, 150) },
    rfl, none, ⟨none, rfl, .refl none⟩, RawFSMOptions.start_of_eq rfl 1000 ⟨4, by decide⟩⟩

end Raft
