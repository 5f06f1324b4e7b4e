import Mathlib.Algebra.BigOperators.Group.Finset.Basic
import Mathlib.Algebra.BigOperators.Pi
import Mathlib.Algebra.Order.BigOperators.Group.Finset
import Mathlib.Algebra.Order.Group.Multiset
import Mathlib.Data.Fintype.Basic

/-!
# The queue of script checks

`CCheckQueue` of `checkqueue.h`. One thread, the master, adds checks; workers take them in batches; and when the master waits,
it works with them until all checks are done.

* What a thread does while it holds the mutex is one step, and so is each check. The steps come in any order, and `cond.wait`
  may return without a notification.
* The back of `queue` is the head of the list. `nTodo` stays below `2 ^ 32`.
* `Checking.Inv`: where the checks are that were added, and what `fAllOk` and the results of the threads say of them.
-/

namespace DigiWage

structure CCheckQueue (T : Type) where
  queue : List T
  nIdle : Int
  nTotal : Int
  fAllOk : Bool
  nTodo : Nat
  fQuit : Bool
  nBatchSize : Nat

/-- Where a thread is in `Loop`: not in it, before the mutex, in `cond.wait`, out of it and before the mutex, at the mutex, or
at work on a batch, of which `rest` is left. -/
inductive LoopAt (T : Type) where
  | outside
  | start
  | waiting
  | woken
  | locked
  | working (vChecks rest : List T) (fOk : Bool)

namespace LoopAt

variable {T : Type}

def isOutside : LoopAt T → Bool
  | outside => true
  | _ => false

def isWaiting : LoopAt T → Bool
  | waiting => true
  | _ => false

/-- The checks that the thread has taken, and what it counts for in `nIdle` and `nTotal`. -/
def tally : LoopAt T → Multiset T × Int × Int
  | outside | start => (0, 0, 0)
  | waiting | woken => (0, 1, 1)
  | locked => (0, 0, 1)
  | working vChecks _ _ => (vChecks, 0, 1)

/-- The batch that the thread hands in. -/
def batch : LoopAt T → List T
  | working vChecks _ _ => vChecks
  | _ => []

/-- `cond.wait` returns. -/
def wake : LoopAt T → LoopAt T
  | waiting => woken
  | p => p

end LoopAt

/-- How a thread leaves the mutex. -/
inductive LoopExit (T : Type) where
  | returns (fRet : Bool)
  | waits
  | works (vChecks : List T) (fOk : Bool)

def LoopExit.next {T : Type} : LoopExit T → LoopAt T
  | returns _ => .outside
  | waits => .waiting
  | works vChecks fOk => .working vChecks vChecks fOk

namespace CCheckQueue

variable {T : Type}

/-- The constructor. -/
def new (nBatchSizeIn : Nat) : CCheckQueue T := ⟨[], 0, 0, true, 0, false, nBatchSizeIn⟩

/-- How many work units to process now. -/
def nNow (q : CCheckQueue T) : Nat := max 1 (min q.nBatchSize (q.queue.length / (q.nTotal + q.nIdle + 1).toNat))

/-- What a thread that gets the mutex does first, and whether it notifies the master: the clean-up of the previous loop run. -/
def enter (fMaster : Bool) (q : CCheckQueue T) : LoopAt T → Option (CCheckQueue T × Bool)
  | .start => some ({ q with nTotal := q.nTotal + 1 }, false)
  | .woken => some ({ q with nIdle := q.nIdle - 1 }, false)
  | .working vChecks [] fOk =>
    let nTodo := q.nTodo - vChecks.length
    -- we processed the last element; inform the master he can exit and return the result
    some ({ q with fAllOk := q.fAllOk && fOk, nTodo := nTodo }, nTodo == 0 && !fMaster)
  | _ => none

/-- From `while (queue.empty())` on. -/
def leave (fMaster : Bool) (q : CCheckQueue T) : CCheckQueue T × LoopExit T :=
  if q.queue.isEmpty then
    if (fMaster || q.fQuit) && q.nTodo == 0 then
      ({ q with nTotal := q.nTotal - 1, fAllOk := fMaster || q.fAllOk }, .returns q.fAllOk)
    else ({ q with nIdle := q.nIdle + 1 }, .waits)
  else ({ q with queue := q.queue.drop q.nNow }, .works (q.queue.take q.nNow) q.fAllOk)

def add (q : CCheckQueue T) (vChecks : List T) : CCheckQueue T :=
  { q with queue := vChecks.reverse ++ q.queue, nTodo := q.nTodo + vChecks.length }

def isIdle (q : CCheckQueue T) : Bool := q.nTotal == q.nIdle && q.nTodo == 0 && q.fAllOk == true

end CCheckQueue

/-- The queue and the threads; the checks added since the last `Wait`, those of them that are done, and what `Wait` returned for
which checks. -/
structure Checking (ι T : Type) where
  q : CCheckQueue T
  pc : ι → LoopAt T
  added : List T
  done : List T
  results : List (List T × Bool)

/-- What can happen: the master adds checks, which wakes some threads; the master waits; a thread gets the mutex; a thread makes
a check; `cond.wait` returns by itself. -/
inductive CheckAction (ι T : Type) where
  | add (vChecks : List T) (notified : Finset ι)
  | wait
  | lock (i : ι)
  | check (i : ι)
  | wake (i : ι)

namespace Checking

variable {ι T : Type} [Fintype ι] [DecidableEq ι] (call : T → Bool) (master : ι)

/-- The workers have been started, and nothing is to be checked. -/
def new (nBatchSizeIn : Nat) : Checking ι T := ⟨.new nBatchSizeIn, fun i => if i = master then .outside else .start, [], [], []⟩

/-- The workers in `condWorker`. -/
def idleWorkers (s : Checking ι T) : Finset ι := Finset.univ.filter fun i => i ≠ master ∧ (s.pc i).isWaiting = true

/-- `condWorker` wakes one worker for one check, and all for more. -/
def Notifies (s : Checking ι T) (nChecks : Nat) (notified : Finset ι) : Prop :=
  notified ⊆ s.idleWorkers master ∧
    notified.card = if nChecks ≤ 1 then min nChecks (s.idleWorkers master).card else (s.idleWorkers master).card

instance (s : Checking ι T) (nChecks : Nat) (notified : Finset ι) : Decidable (s.Notifies master nChecks notified) :=
  inferInstanceAs (Decidable (_ ∧ _))

def add (vChecks : List T) (notified : Finset ι) (s : Checking ι T) : Checking ι T :=
  { s with
    q := s.q.add vChecks
    pc := fun j => if j ∈ notified then (s.pc j).wake else s.pc j
    added := vChecks ++ s.added }

/-- A thread gets the mutex. -/
def acquire (i : ι) (s : Checking ι T) : Option (Checking ι T) :=
  match s.q.enter (i = master) (s.pc i) with
  | none => none
  | some (q, notify) =>
    let pc := fun j => if notify = true ∧ j = master then (s.pc j).wake else s.pc j
    some { s with q := q, pc := Function.update pc i .locked, done := (s.pc i).batch ++ s.done }

/-- A thread leaves the mutex. -/
def release (i : ι) (s : Checking ι T) : Checking ι T :=
  let r := s.q.leave (i = master)
  let s : Checking ι T := { s with q := r.1, pc := Function.update s.pc i r.2.next }
  match r.2 with
  | .returns fRet => if i = master then { s with added := [], done := [], results := s.results ++ [(s.added, fRet)] } else s
  | _ => s

/-- A thread makes the next check of its batch, unless one has failed. -/
def check (i : ι) (s : Checking ι T) : Option (Checking ι T) :=
  match s.pc i with
  | .working vChecks (c :: rest) fOk => some { s with pc := Function.update s.pc i (.working vChecks rest (fOk && call c)) }
  | _ => none

/-- The step of a thread, if there is one. -/
def work (s : Checking ι T) : CheckAction ι T → Option (Checking ι T)
  | .lock i => (s.acquire master i).map (release master i)
  | .check i => s.check call i
  | _ => none

/-- One step; what cannot happen changes nothing. -/
def step (s : Checking ι T) (a : CheckAction ι T) : Checking ι T :=
  match a with
  | .add vChecks notified =>
    if (s.pc master).isOutside = true ∧ s.Notifies master vChecks.length notified then s.add vChecks notified else s
  | .wait => if (s.pc master).isOutside = true then { s with pc := Function.update s.pc master .start } else s
  | .wake i => { s with pc := Function.update s.pc i (s.pc i).wake }
  | a => (s.work call master a).getD s

/-- Steps one after the other. -/
def run (s : Checking ι T) (actions : List (CheckAction ι T)) : Checking ι T := actions.foldl (step call master) s

omit [Fintype ι] in
theorem wake_eq_update (pc : ι → LoopAt T) (i : ι) :
    (fun j => if j = i then (pc j).wake else pc j) = Function.update pc i (pc i).wake := by
  funext j
  by_cases hj : j = i
  · rw [if_pos hj, hj, Function.update_self]
  · rw [if_neg hj, Function.update_of_ne hj]

theorem sum_update {A M : Type} [AddCommMonoid M] (f : A → M) (pc : ι → A) (i : ι) (a : A) :
    ∑ j, f (Function.update pc i a j) + f (pc i) = ∑ j, f (pc j) + f a := by
  have hrest : ∑ j ∈ Finset.univ.erase i, f (Function.update pc i a j) = ∑ j ∈ Finset.univ.erase i, f (pc j) := by
    refine Finset.sum_congr rfl fun j hj => ?_
    rw [Function.update_of_ne (Finset.ne_of_mem_erase hj)]
  rw [← Finset.add_sum_erase _ _ (Finset.mem_univ i), ← Finset.add_sum_erase _ (fun j => f (pc j)) (Finset.mem_univ i), hrest,
    Function.update_self]
  ac_rfl

/-! ## The invariant -/

variable {call : T → Bool} {master : ι} {holder holder' : Option ι} {s s' : Checking ι T} {i : ι}

/-- What a thread at work knows of its batch: a false `fOk` comes from a check that has failed. -/
def Batched (call : T → Bool) (added : List T) (p : LoopAt T) : Prop :=
  ∀ vChecks rest fOk, p = .working vChecks rest fOk → vChecks ≠ [] ∧ ∃ ran, vChecks = ran ++ rest ∧
    (fOk = true → ∀ c ∈ ran, call c = true) ∧ (fOk = false → ∃ c ∈ added, call c = false)

theorem batched_of_ne {added : List T} {p : LoopAt T} (h : ∀ vChecks rest fOk, p ≠ .working vChecks rest fOk) :
    Batched call added p := fun vChecks rest fOk hp => absurd hp (h vChecks rest fOk)

theorem Batched.mono {added added' : List T} {p : LoopAt T} (h : Batched call added p) (hsub : added ⊆ added') :
    Batched call added' p := by
  intro vChecks rest fOk hp
  obtain ⟨hne, ran, hran, htrue, hfalse⟩ := h vChecks rest fOk hp
  refine ⟨hne, ran, hran, htrue, fun hok => ?_⟩
  obtain ⟨c, hc, hcall⟩ := hfalse hok
  exact ⟨c, hsub hc, hcall⟩

/-- The checks that were added are in the queue, in a batch or done; nothing but checks that have failed makes a result false;
the counters count; the master does not wait in vain; and only the holder has the mutex. -/
structure Inv (call : T → Bool) (master : ι) (holder : Option ι) (s : Checking ι T) : Prop where
  quit : s.q.fQuit = false
  locked : ∀ i, s.pc i = .locked → holder = some i
  split : (s.added : Multiset T) = s.q.queue + (∑ i, (s.pc i).tally).1 + s.done
  counts : (∑ i, (s.pc i).tally).2 = (s.q.nIdle, s.q.nTotal)
  todo : s.q.nTodo + s.done.length = s.added.length
  allOk : s.q.fAllOk = true → ∀ c ∈ s.done, call c = true
  notOk : s.q.fAllOk = false → ∃ c ∈ s.added, call c = false
  batched : ∀ i, Batched call s.added (s.pc i)
  masterWaits : s.pc master = .waiting → s.q.queue = [] ∧ s.q.nTodo ≠ 0
  results : ∀ r ∈ s.results, r.2 = r.1.all call

omit [DecidableEq ι] in
theorem Inv.card_eq (h : s.Inv call master holder) : s.q.nTodo = s.q.queue.length + (∑ i, (s.pc i).tally).1.card := by
  have hcard := congrArg Multiset.card h.split
  have htodo := h.todo
  rw [Multiset.card_add, Multiset.card_add, Multiset.coe_card, Multiset.coe_card, Multiset.coe_card] at hcard
  omega

omit [DecidableEq ι] in
theorem tally_le (pc : ι → LoopAt T) (i : ι) : (pc i).tally.1 ≤ (∑ j, (pc j).tally).1 := by
  rw [Prod.fst_sum]
  exact Finset.single_le_sum (f := fun j => (pc j).tally.1) (fun _ _ => Multiset.zero_le _) (Finset.mem_univ i)

omit [DecidableEq ι] in
theorem Inv.wakes (h : s.Inv call master holder) (p : ι → Prop) [DecidablePred p] :
    Inv call master holder { s with pc := fun j => if p j then (s.pc j).wake else s.pc j } := by
  have hwake (q : LoopAt T) : q.wake.tally = q.tally ∧ q.wake ≠ .waiting ∧ (∀ r, q.wake = r → q = .waiting ∨ q = r) := by
    cases q <;> exact ⟨rfl, nofun, fun r hr => by first | exact .inl rfl | exact .inr hr⟩
  have htally : ∑ j, (if p j then (s.pc j).wake else s.pc j).tally = ∑ j, (s.pc j).tally := by
    refine Finset.sum_congr rfl fun j _ => ?_
    split
    · exact (hwake _).1
    · rfl
  refine ⟨h.quit, fun j hj => ?_, by rw [htally]; exact h.split, by rw [htally]; exact h.counts, h.todo, h.allOk, h.notOk,
    fun j => ?_, fun hm => ?_, h.results⟩
  · dsimp only at hj
    split at hj
    · rcases (hwake _).2.2 _ hj with hw | hl
      · rw [hw] at hj
        cases hj
      · exact h.locked j hl
    · exact h.locked j hj
  · dsimp only
    split
    · intro vChecks rest fOk hp
      rcases (hwake _).2.2 _ hp with hw | hwork
      · rw [hw] at hp
        cases hp
      · exact h.batched j vChecks rest fOk hwork
    · exact h.batched j
  · dsimp only at hm
    split at hm
    · exact absurd hm (hwake _).2.1
    · exact h.masterWaits hm

theorem Inv.thread (h : s.Inv call master holder) {p : LoopAt T} (hpc : s'.pc = Function.update s.pc i p)
    (hquit : s'.q.fQuit = false) (hholder : holder = none ∨ holder = some i) (hlocked : p = .locked → holder' = some i)
    (hsplit : (s'.added : Multiset T) + (s.q.queue + (s.pc i).tally.1 + s.done) = s.added + (s'.q.queue + p.tally.1 + s'.done))
    (hcounts : (s'.q.nIdle, s'.q.nTotal) + (s.pc i).tally.2 = (s.q.nIdle, s.q.nTotal) + p.tally.2)
    (htodo : s'.q.nTodo + s'.done.length = s'.added.length) (hallOk : s'.q.fAllOk = true → ∀ c ∈ s'.done, call c = true)
    (hnotOk : s'.q.fAllOk = false → ∃ c ∈ s'.added, call c = false) (hothers : ∀ j, j ≠ i → Batched call s'.added (s.pc j))
    (hbatched : Batched call s'.added p) (hwaits : s'.pc master = .waiting → s'.q.queue = [] ∧ s'.q.nTodo ≠ 0)
    (hresults : ∀ r ∈ s'.results, r.2 = r.1.all call) : s'.Inv call master holder' := by
  have hsum := sum_update LoopAt.tally s.pc i p
  rw [← hpc] at hsum
  refine ⟨hquit, fun j hj => ?_, ?_, ?_, htodo, hallOk, hnotOk, fun j => ?_, hwaits, hresults⟩
  · rw [hpc] at hj
    by_cases hji : j = i
    · rw [hji, Function.update_self] at hj
      rw [hji, hlocked hj]
    · rw [Function.update_of_ne hji] at hj
      rcases hholder with hnone | hsome
      · exact absurd (h.locked j hj) (by rw [hnone]; exact nofun)
      · exact absurd (Option.some.inj ((h.locked j hj).symm.trans hsome)) hji
  · have hfst := congrArg Prod.fst hsum
    rw [Prod.fst_add, Prod.fst_add] at hfst
    have hall : (s'.added : Multiset T) + (s.added + (s.pc i).tally.1) =
        s'.q.queue + (∑ j, (s'.pc j).tally).1 + s'.done + (s.added + (s.pc i).tally.1) := by
      calc (s'.added : Multiset T) + (s.added + (s.pc i).tally.1)
          = s'.added + (s.q.queue + (s.pc i).tally.1 + s.done) + (∑ j, (s.pc j).tally).1 := by
            rw [h.split]
            ac_rfl
        _ = s.added + (s'.q.queue + s'.done) + ((∑ j, (s.pc j).tally).1 + p.tally.1) := by
            rw [hsplit]
            ac_rfl
        _ = _ := by
            rw [← hfst]
            ac_rfl
    exact add_right_cancel hall
  · have hsnd := congrArg Prod.snd hsum
    rw [Prod.snd_add, Prod.snd_add, h.counts, ← hcounts] at hsnd
    exact add_right_cancel hsnd
  · rw [hpc]
    by_cases hji : j = i
    · rw [hji, Function.update_self]
      exact hbatched
    · rw [Function.update_of_ne hji]
      exact hothers j hji

theorem Inv.move (h : s.Inv call master holder) (i : ι) (p : LoopAt T) (holder' : Option ι) (nIdle nTotal : Int)
    (hholder : holder = none ∨ holder = some i) (hlocked : p = .locked → holder' = some i) (htally : p.tally.1 = (s.pc i).tally.1)
    (hcounts : (nIdle, nTotal) + (s.pc i).tally.2 = (s.q.nIdle, s.q.nTotal) + p.tally.2) (hbatched : Batched call s.added p)
    (hwaits : i = master → p = .waiting → s.q.queue = [] ∧ s.q.nTodo ≠ 0) :
    Inv call master holder' { s with q := { s.q with nIdle := nIdle, nTotal := nTotal }, pc := Function.update s.pc i p } := by
  refine h.thread rfl h.quit hholder hlocked (by rw [htally]) hcounts h.todo h.allOk h.notOk (fun j _ => h.batched j) hbatched
    (fun hm => ?_) h.results
  dsimp only at hm
  by_cases hji : master = i
  · rw [hji, Function.update_self] at hm
    exact hwaits hji.symm hm
  · exact h.masterWaits (by rwa [Function.update_of_ne hji] at hm)

omit [DecidableEq ι] in
theorem Inv.push (h : s.Inv call master holder) (hm : s.pc master ≠ .waiting) (vChecks : List T) :
    Inv call master holder { s with q := s.q.add vChecks, added := vChecks ++ s.added } := by
  have hmore : s.added ⊆ vChecks ++ s.added := List.subset_append_right ..
  refine ⟨h.quit, h.locked, ?_, h.counts, ?_, h.allOk, fun hok => ?_, fun j => (h.batched j).mono hmore,
    fun hw => absurd hw hm, h.results⟩
  · change ((vChecks ++ s.added : List T) : Multiset T) = ((vChecks.reverse ++ s.q.queue : List T) : Multiset T) + _ + _
    rw [← Multiset.coe_add, ← Multiset.coe_add, Multiset.coe_reverse, h.split]
    ac_rfl
  · have htodo := h.todo
    change s.q.nTodo + vChecks.length + s.done.length = (vChecks ++ s.added).length
    rw [List.length_append]
    omega
  · obtain ⟨c, hc, hcall⟩ := h.notOk hok
    exact ⟨c, hmore hc, hcall⟩

theorem Inv.commit (h : s.Inv call master none) {vChecks : List T} {fOk : Bool} (hi : s.pc i = .working vChecks [] fOk)
    (hm : s.pc master = .waiting → s.q.nTodo - vChecks.length ≠ 0) :
    Inv call master (some i) { s with
      q := { s.q with fAllOk := s.q.fAllOk && fOk, nTodo := s.q.nTodo - vChecks.length }
      pc := Function.update s.pc i .locked
      done := vChecks ++ s.done } := by
  obtain ⟨hne, ran, hran, htrue, hfalse⟩ := h.batched i vChecks [] fOk hi
  rw [List.append_nil] at hran
  subst hran
  have hle : vChecks.length ≤ s.q.nTodo := by
    have hcard := Multiset.card_le_card (tally_le s.pc i)
    rw [hi] at hcard
    change vChecks.length ≤ _ at hcard
    rw [h.card_eq]
    omega
  refine h.thread rfl h.quit (.inl rfl) (fun _ => rfl) ?_ (by rw [hi]; rfl) ?_ (fun hok c hc => ?_) (fun hok => ?_)
    (fun j _ => h.batched j) (batched_of_ne nofun) (fun hw => ?_) h.results
  · rw [hi]
    change (s.added : Multiset T) + (s.q.queue + vChecks + s.done) = s.added + (s.q.queue + 0 + (vChecks ++ s.done : List T))
    rw [← Multiset.coe_add]
    ac_rfl
  · have htodo := h.todo
    change s.q.nTodo - vChecks.length + (vChecks ++ s.done).length = s.added.length
    rw [List.length_append]
    omega
  · obtain ⟨hall, hfOk⟩ := Bool.and_eq_true_iff.mp hok
    rcases List.mem_append.mp hc with hc | hc
    · exact htrue hfOk c hc
    · exact h.allOk hall c hc
  · rcases Bool.and_eq_false_iff.mp hok with hall | hfOk
    · exact h.notOk hall
    · exact hfalse hfOk
  · dsimp only at hw
    by_cases hji : master = i
    · rw [hji, Function.update_self] at hw
      cases hw
    · rw [Function.update_of_ne hji] at hw
      exact ⟨(h.masterWaits hw).1, hm hw⟩

omit [Fintype ι] in
theorem pc_acquire (hacq : s.acquire master i = some s') : s'.pc i = .locked := by
  unfold Checking.acquire at hacq
  split at hacq
  · cases hacq
  · cases hacq
    dsimp only
    rw [Function.update_self]

theorem Inv.acquire (h : s.Inv call master none) (hacq : s.acquire master i = some s') : s'.Inv call master (some i) := by
  unfold Checking.acquire at hacq
  split at hacq
  · cases hacq
  · next q notify henter =>
    cases hpc : s.pc i with
    | start =>
      rw [hpc] at henter hacq
      cases henter
      have hmove := h.move i .locked (some i) s.q.nIdle (s.q.nTotal + 1) (.inl rfl) (fun _ => rfl)
        (by rw [hpc]; rfl) (by rw [hpc]; exact Prod.ext rfl (add_zero _)) (batched_of_ne nofun) nofun
      simp only [Bool.false_eq_true, false_and, if_false, Option.some.injEq] at hacq
      subst hacq
      exact hmove
    | woken =>
      rw [hpc] at henter hacq
      cases henter
      have hmove := h.move i .locked (some i) (s.q.nIdle - 1) s.q.nTotal (.inl rfl) (fun _ => rfl)
        (by rw [hpc]; rfl) (by rw [hpc]; exact Prod.ext (sub_add_cancel _ _ |>.trans (add_zero _).symm) rfl)
        (batched_of_ne nofun) nofun
      simp only [Bool.false_eq_true, false_and, if_false, Option.some.injEq] at hacq
      subst hacq
      exact hmove
    | working vChecks rest fOk =>
      cases rest with
      | cons c rest =>
        rw [hpc] at henter
        cases henter
      | nil =>
        rw [hpc] at henter hacq
        cases henter
        cases hacq
        -- the master wakes before the batch is handed in
        have hwake := h.wakes fun j => (s.q.nTodo - vChecks.length == 0 && !decide (i = master)) = true ∧ j = master
        have hi : (if (s.q.nTodo - vChecks.length == 0 && !decide (i = master)) = true ∧ i = master then (s.pc i).wake
            else s.pc i) = .working vChecks [] fOk := by
          rw [hpc]
          split <;> rfl
        refine hwake.commit hi fun hm hzero => ?_
        dsimp only at hm
        by_cases him : i = master
        · rw [him] at hi
          rw [him, hi] at hm
          cases hm
        · rw [if_pos (by simpa [him] using hzero)] at hm
          cases hmaster : s.pc master <;> rw [hmaster] at hm <;> cases hm
    | _ =>
      rw [hpc] at henter
      cases henter

omit [DecidableEq ι] in
theorem Inv.finished (h : s.Inv call master holder) (htodo : s.q.nTodo = 0) :
    s.q.queue = [] ∧ (∀ i, (s.pc i).tally.1 = 0) ∧ s.added.Perm s.done := by
  have hzero := h.card_eq
  have hqueue : s.q.queue = [] := List.length_eq_zero_iff.mp (by omega)
  have htaken : (∑ i, (s.pc i).tally).1 = 0 := Multiset.card_eq_zero.mp (by omega)
  refine ⟨hqueue, fun i => Multiset.le_zero.mp (htaken ▸ tally_le s.pc i), Multiset.coe_eq_coe.mp ?_⟩
  rw [h.split, hqueue, htaken, Multiset.coe_nil, zero_add, zero_add]

omit [Fintype ι] [DecidableEq ι] in
theorem Batched.not_working {added : List T} {p : LoopAt T} (h : Batched call added p) (hp : p.tally.1 = 0) :
    ∀ vChecks rest fOk, p ≠ .working vChecks rest fOk := by
  rintro vChecks rest fOk rfl
  exact (h vChecks rest fOk rfl).1 (Multiset.coe_eq_zero _ |>.mp hp)

theorem Inv.finish (h : s.Inv call master (some master)) (hi : s.pc master = .locked) (htodo : s.q.nTodo = 0) :
    Inv call master none { s with
      q := { s.q with nTotal := s.q.nTotal - 1, fAllOk := true }
      pc := Function.update s.pc master .outside
      added := []
      done := []
      results := s.results ++ [(s.added, s.q.fAllOk)] } := by
  obtain ⟨hqueue, hnone, hperm⟩ := h.finished htodo
  refine h.thread rfl h.quit (.inr rfl) nofun ?_ ?_ (congrArg (· + 0) htodo) (fun _ c hc => absurd hc List.not_mem_nil) nofun
    (fun j _ => batched_of_ne ((h.batched j).not_working (hnone j))) (batched_of_ne nofun) (fun hm => ?_) (fun r hr => ?_)
  · rw [hi]
    change 0 + (s.q.queue + 0 + s.done : Multiset T) = s.added + (s.q.queue + 0 + 0)
    rw [hqueue, Multiset.coe_eq_coe.mpr hperm, Multiset.coe_nil, zero_add, add_zero, zero_add, add_zero, add_zero]
  · rw [hi]
    exact Prod.ext rfl (sub_add_cancel _ _ |>.trans (add_zero _).symm)
  · dsimp only at hm
    rw [Function.update_self] at hm
    cases hm
  · rcases List.mem_append.mp hr with hr | hr
    · exact h.results r hr
    · rw [List.mem_singleton.mp hr]
      cases hok : s.q.fAllOk with
      | true => exact (List.all_eq_true.mpr fun c hc => h.allOk hok c (hperm.subset hc)).symm
      | false =>
        obtain ⟨c, hc, hcall⟩ := h.notOk hok
        exact (List.all_eq_false.mpr ⟨c, hc, by rw [hcall]; exact Bool.false_ne_true⟩).symm

theorem Inv.take (h : s.Inv call master (some i)) {n : Nat} (hi : s.pc i = .locked) (hn : 0 < n) (hqueue : s.q.queue ≠ []) :
    Inv call master none { s with
      q := { s.q with queue := s.q.queue.drop n }
      pc := Function.update s.pc i (.working (s.q.queue.take n) (s.q.queue.take n) s.q.fAllOk) } := by
  refine h.thread rfl h.quit (.inr rfl) nofun ?_ (by rw [hi]; rfl) h.todo h.allOk h.notOk (fun j _ => h.batched j)
    (fun v rest fOk hp => ?_) (fun hm => ?_) h.results
  · rw [hi]
    change (s.added : Multiset T) + (s.q.queue + 0 + s.done) =
      s.added + ((s.q.queue.drop n : List T) + (s.q.queue.take n : List T) + s.done)
    have hcut : (s.q.queue : Multiset T) = (s.q.queue.drop n : List T) + (s.q.queue.take n : List T) := by
      rw [add_comm, Multiset.coe_add, List.take_append_drop]
    rw [add_zero, ← hcut]
  · injection hp with hv hrest hok
    subst hv hrest hok
    refine ⟨?_, [], rfl, fun _ c hc => absurd hc List.not_mem_nil, h.notOk⟩
    rw [Ne, List.take_eq_nil_iff]
    exact not_or.mpr ⟨hn.ne', hqueue⟩
  · dsimp only at hm
    by_cases hji : master = i
    · rw [hji, Function.update_self] at hm
      cases hm
    · rw [Function.update_of_ne hji] at hm
      exact absurd (h.masterWaits hm).1 hqueue

theorem nNow_pos (q : CCheckQueue T) : 0 < q.nNow := Nat.lt_of_lt_of_le Nat.zero_lt_one (Nat.le_max_left _ _)

theorem Inv.release (h : s.Inv call master (some i)) (hi : s.pc i = .locked) : (s.release master i).Inv call master none := by
  unfold Checking.release CCheckQueue.leave
  by_cases hqueue : s.q.queue = []
  · by_cases hdone : i = master ∧ s.q.nTodo = 0
    · obtain ⟨rfl, htodo⟩ := hdone
      simpa [hqueue, h.quit, htodo, LoopExit.next] using h.finish hi htodo
    · have hmove := h.move i .waiting none (s.q.nIdle + 1) s.q.nTotal (.inr rfl) nofun (by rw [hi]; rfl)
        (by rw [hi]; exact Prod.ext (add_zero _) rfl) (batched_of_ne nofun) fun him _ => ⟨hqueue, fun htodo => hdone ⟨him, htodo⟩⟩
      have hexit : ((decide (i = master) || s.q.fQuit) && s.q.nTodo == 0) = false := by
        rw [h.quit, Bool.or_false, ← Bool.not_eq_true, Bool.and_eq_true, decide_eq_true_eq, beq_iff_eq]
        exact hdone
      simp only [hqueue, List.isEmpty_nil, if_true, hexit, Bool.false_eq_true, if_false]
      simpa only [hqueue, LoopExit.next] using hmove
  · have htake := h.take hi (nNow_pos s.q) hqueue
    simp only [List.isEmpty_iff, if_neg hqueue]
    exact htake

theorem Inv.check (h : s.Inv call master none) (hcheck : s.check call i = some s') : s'.Inv call master none := by
  unfold Checking.check at hcheck
  split at hcheck
  · next vChecks c rest fOk hpc =>
    cases hcheck
    obtain ⟨hne, ran, hran, htrue, hfalse⟩ := h.batched i vChecks (c :: rest) fOk hpc
    have hmem : c ∈ s.added := by
      have hle := tally_le s.pc i
      rw [hpc] at hle
      have hc : c ∈ (vChecks : Multiset T) := by
        rw [hran]
        exact List.mem_append_right _ List.mem_cons_self
      rw [← Multiset.mem_coe, h.split, Multiset.mem_add, Multiset.mem_add]
      exact .inl (.inr (Multiset.mem_of_le hle hc))
    refine h.move i (.working vChecks rest (fOk && call c)) none s.q.nIdle s.q.nTotal (.inl rfl) nofun (by rw [hpc]; rfl)
      (by rw [hpc]; rfl) (fun v r ok hp => ?_) nofun
    injection hp with hv hr hok
    subst hv hr hok
    refine ⟨hne, ran ++ [c], by rw [hran, List.append_assoc]; rfl, fun hok c' hc' => ?_, fun hok => ?_⟩
    · obtain ⟨hfOk, hcall⟩ := Bool.and_eq_true_iff.mp hok
      rcases List.mem_append.mp hc' with hc' | hc'
      · exact htrue hfOk c' hc'
      · rwa [List.mem_singleton.mp hc']
    · rcases Bool.and_eq_false_iff.mp hok with hfOk | hcall
      · exact hfalse hfOk
      · exact ⟨c, hmem, hcall⟩
  · cases hcheck

omit [Fintype ι] in
theorem work_cases {a : CheckAction ι T} (h : s.work call master a = some s') :
    (∃ i t, a = .lock i ∧ s.acquire master i = some t ∧ s' = t.release master i) ∨ ∃ i, a = .check i ∧ s.check call i = some s' := by
  cases a with
  | lock i =>
    obtain ⟨t, ht, rfl⟩ := Option.map_eq_some_iff.mp h
    exact .inl ⟨i, t, rfl, ht, rfl⟩
  | check i => exact .inr ⟨i, rfl, h⟩
  | _ => cases h

theorem Inv.work {a : CheckAction ι T} (h : s.Inv call master none) (hwork : s.work call master a = some s') :
    s'.Inv call master none := by
  obtain ⟨i, t, -, ht, rfl⟩ | ⟨i, -, hcheck⟩ := work_cases hwork
  · exact (h.acquire ht).release (pc_acquire ht)
  · exact h.check hcheck

theorem Inv.step (h : s.Inv call master none) (a : CheckAction ι T) : (s.step call master a).Inv call master none := by
  have hout (hm : (s.pc master).isOutside = true) : s.pc master = .outside := by
    cases hpc : s.pc master <;> rw [hpc] at hm <;> first | rfl | cases hm
  have hwork (a : CheckAction ι T) : ((s.work call master a).getD s).Inv call master none := by
    cases hwork : s.work call master a with
    | none => exact h
    | some t => exact h.work hwork
  cases a with
  | add vChecks notified =>
    rw [Checking.step]
    split
    · next hadd =>
      have hpush := h.push (by rw [hout hadd.1]; exact nofun) vChecks
      exact hpush.wakes (· ∈ notified)
    · exact h
  | wait =>
    rw [Checking.step]
    split
    · next hm =>
      exact h.move master .start none s.q.nIdle s.q.nTotal (.inl rfl) nofun (by rw [hout hm]; rfl) (by rw [hout hm]; rfl)
        (batched_of_ne nofun) nofun
    · exact h
  | wake i =>
    have hwake := h.wakes (· = i)
    rwa [wake_eq_update] at hwake
  | lock i => exact hwork (.lock i)
  | check i => exact hwork (.check i)

theorem inv_new (nBatchSizeIn : Nat) : (new (T := T) master nBatchSizeIn).Inv call master none := by
  have hpc (i : ι) : (new (T := T) master nBatchSizeIn).pc i = .outside ∨ (new (T := T) master nBatchSizeIn).pc i = .start := by
    unfold new
    dsimp only
    split
    · exact .inl rfl
    · exact .inr rfl
  have htally : ∑ i, ((new (T := T) master nBatchSizeIn).pc i).tally = 0 := by
    refine Finset.sum_eq_zero fun i _ => ?_
    rcases hpc i with h | h <;> rw [h] <;> rfl
  refine ⟨rfl, fun j hj => ?_, by rw [htally]; rfl, by rw [htally]; rfl, rfl, fun _ c hc => absurd hc List.not_mem_nil, nofun,
    fun j => ?_, fun hm => ?_, fun r hr => absurd hr List.not_mem_nil⟩
  · rcases hpc j with h | h <;> rw [h] at hj <;> cases hj
  · rcases hpc j with h | h <;> rw [h] <;> exact batched_of_ne nofun
  · rcases hpc master with h | h <;> rw [h] at hm <;> cases hm

theorem inv_run (call : T → Bool) (master : ι) (nBatchSizeIn : Nat) (actions : List (CheckAction ι T)) :
    ((new master nBatchSizeIn).run call master actions).Inv call master none :=
  List.foldlRecOn actions _ (inv_new nBatchSizeIn) fun _ h a _ => h.step a

omit [DecidableEq ι] in
theorem Inv.isIdle (h : s.Inv call master none) (hadded : s.added = []) : s.q.isIdle = true := by
  have htodo : s.q.nTodo = 0 := by
    have htodo := h.todo
    rw [hadded, List.length_nil] at htodo
    omega
  obtain ⟨-, hnone, -⟩ := h.finished htodo
  have hcounts : s.q.nTotal = s.q.nIdle := by
    have hsum := h.counts
    rw [Prod.snd_sum, Prod.ext_iff, Prod.fst_sum, Prod.snd_sum] at hsum
    refine hsum.2.symm.trans ((Finset.sum_congr rfl fun i _ => ?_).trans hsum.1)
    have hi := h.locked i
    have hno := (h.batched i).not_working (hnone i)
    cases hpc : s.pc i with
    | locked => cases hi hpc
    | working v rest fOk => exact absurd hpc (hno v rest fOk)
    | _ => rfl
  have hok : s.q.fAllOk = true := by
    cases hok : s.q.fAllOk with
    | true => rfl
    | false =>
      obtain ⟨c, hc, -⟩ := h.notOk hok
      rw [hadded] at hc
      exact absurd hc List.not_mem_nil
  simp [CCheckQueue.isIdle, hcounts, htodo, hok]

/-! ## What is left to do -/

/-- How many steps a thread can make at most before it waits or takes more checks. -/
def weight : LoopAt T → Nat
  | .outside | .waiting => 0
  | .start => 2
  | .woken | .locked => 1
  | .working _ rest _ => rest.length + 3

/-- How many steps the threads can make at most. -/
def left (s : Checking ι T) : Nat := 4 * s.q.queue.length + ∑ i, weight (s.pc i)

theorem left_update (s : Checking ι T) (i : ι) (p : LoopAt T) :
    left { s with pc := Function.update s.pc i p } + weight (s.pc i) = s.left + weight p := by
  have hsum := sum_update weight s.pc i p
  change 4 * s.q.queue.length + ∑ j, weight (Function.update s.pc i p j) + _ = 4 * s.q.queue.length + _ + _
  omega

theorem left_wake (s : Checking ι T) (master : ι) (notify : Bool) :
    left { s with pc := fun j => if notify = true ∧ j = master then (s.pc j).wake else s.pc j } ≤ s.left + 1 := by
  cases notify with
  | false => simp
  | true =>
    simp only [true_and, wake_eq_update]
    have hone : weight (s.pc master).wake ≤ weight (s.pc master) + 1 := by
      cases s.pc master <;> simp [LoopAt.wake, weight]
    have hmove := left_update s master (s.pc master).wake
    omega

omit [Fintype ι] in
theorem enter_cases {fMaster : Bool} {q q' : CCheckQueue T} {p : LoopAt T} {notify : Bool}
    (h : q.enter fMaster p = some (q', notify)) :
    q'.queue = q.queue ∧ 1 ≤ weight p ∧ (notify = true → 3 ≤ weight p ∧ fMaster = false) := by
  unfold CCheckQueue.enter at h
  split at h
  · cases h
    exact ⟨rfl, by simp [weight], nofun⟩
  · cases h
    exact ⟨rfl, by simp [weight], nofun⟩
  · cases h
    refine ⟨rfl, by simp [weight], fun hnotify => ⟨by simp [weight], ?_⟩⟩
    simpa using (Bool.and_eq_true_iff.mp hnotify).2
  · cases h

theorem left_acquire (hacq : s.acquire master i = some s') : s'.left ≤ s.left := by
  unfold acquire at hacq
  split at hacq
  · cases hacq
  · next q notify henter =>
    obtain ⟨hqueue, hone, hthree⟩ := enter_cases henter
    cases hacq
    have hmove := left_update { s with pc := fun j => if notify = true ∧ j = master then (s.pc j).wake else s.pc j } i .locked
    have hwake := left_wake s master notify
    have hleft : left { s with
        q := q
        pc := Function.update (fun j => if notify = true ∧ j = master then (s.pc j).wake else s.pc j) i .locked
        done := (s.pc i).batch ++ s.done } =
        left { s with pc := Function.update (fun j => if notify = true ∧ j = master then (s.pc j).wake else s.pc j) i .locked } := by
      unfold left
      dsimp only
      rw [hqueue]
    refine hleft.trans_le ?_
    cases notify with
    | false =>
      have hi : (if false = true ∧ i = master then (s.pc i).wake else s.pc i) = s.pc i := if_neg (by simp)
      have hsame : left { s with pc := fun j => if false = true ∧ j = master then (s.pc j).wake else s.pc j } = s.left := by simp
      dsimp only at hmove
      rw [hi, hsame] at hmove
      change _ = _ + 1 at hmove
      omega
    | true =>
      obtain ⟨hthree, hmaster⟩ := hthree rfl
      have hi : (if true = true ∧ i = master then (s.pc i).wake else s.pc i) = s.pc i := if_neg (by simpa using hmaster)
      dsimp only at hmove
      rw [hi] at hmove
      change _ = _ + 1 at hmove
      omega

omit [Fintype ι] in
theorem leave_lt (q : CCheckQueue T) (fMaster : Bool) :
    4 * (q.leave fMaster).1.queue.length + weight (q.leave fMaster).2.next < 4 * q.queue.length + 1 := by
  unfold CCheckQueue.leave
  by_cases hempty : q.queue = []
  · rw [if_pos (List.isEmpty_iff.mpr hempty)]
    split <;> exact Nat.lt_succ_self _
  · rw [if_neg (by rwa [List.isEmpty_iff])]
    change 4 * (q.queue.drop q.nNow).length + ((q.queue.take q.nNow).length + 3) < _
    have hpos := nNow_pos q
    have hlen := List.length_pos_of_ne_nil hempty
    rw [List.length_take, List.length_drop]
    omega

omit [Fintype ι] in
theorem release_pc (s : Checking ι T) (master i : ι) : (s.release master i).q = (s.q.leave (i = master)).1 ∧
    (s.release master i).pc = Function.update s.pc i (s.q.leave (i = master)).2.next := by
  unfold release
  dsimp only
  split
  · split <;> exact ⟨rfl, rfl⟩
  · exact ⟨rfl, rfl⟩

theorem left_release (hi : s.pc i = .locked) : (s.release master i).left < s.left := by
  obtain ⟨hqueue, hpc⟩ := release_pc s master i
  have hsum := sum_update weight s.pc i (s.q.leave (i = master)).2.next
  rw [hi] at hsum
  change _ + 1 = _ at hsum
  have hless := leave_lt s.q (i = master)
  unfold left
  rw [hpc, hqueue]
  omega

theorem left_work {a : CheckAction ι T} (hwork : s.work call master a = some s') : s'.left < s.left := by
  obtain ⟨i, t, -, ht, rfl⟩ | ⟨i, -, hcheck⟩ := work_cases hwork
  · exact Nat.lt_of_lt_of_le (left_release (pc_acquire ht)) (left_acquire ht)
  · unfold Checking.check at hcheck
    split at hcheck
    · next vChecks c rest fOk hpc =>
      cases hcheck
      have hmove := left_update s i (.working vChecks rest (fOk && call c))
      rw [hpc] at hmove
      simp only [weight, List.length_cons] at hmove
      omega
    · cases hcheck

theorem left_works : ∀ (works : List (CheckAction ι T)) (s t : Checking ι T),
    works.foldlM (work call master) s = some t → works.length + t.left ≤ s.left
  | [], s, t, h => by
    cases h
    exact Nat.le_of_eq (Nat.zero_add _)
  | a :: works, s, t, h => by
    obtain ⟨u, hu, ht⟩ := Option.bind_eq_some_iff.mp h
    have hrest := left_works works u t ht
    have hstep := left_work hu
    rw [List.length_cons]
    omega

theorem Inv.works : ∀ (works : List (CheckAction ι T)) {s t : Checking ι T},
    s.Inv call master none → works.foldlM (Checking.work call master) s = some t → t.Inv call master none
  | [], s, t, hinv, h => by
    cases h
    exact hinv
  | a :: works, s, t, hinv, h => by
    obtain ⟨u, hu, ht⟩ := Option.bind_eq_some_iff.mp h
    exact Inv.works works (hinv.work hu) ht

theorem Inv.progress (h : s.Inv call master none) (hm : (s.pc master).isOutside = false) :
    ∃ a s', s.work call master a = some s' := by
  -- a thread that has a batch makes a check or hands the batch in
  have hworking (i : ι) (vChecks rest : List T) (fOk : Bool) (hi : s.pc i = .working vChecks rest fOk) :
      ∃ a s', s.work call master a = some s' := by
    cases rest with
    | nil => exact ⟨.lock i, _, by simp only [Checking.work, Checking.acquire, hi, CCheckQueue.enter]; rfl⟩
    | cons c rest => exact ⟨.check i, _, by simp only [Checking.work, Checking.check, hi]; rfl⟩
  cases hpc : s.pc master with
  | outside =>
    rw [hpc] at hm
    cases hm
  | start => exact ⟨.lock master, _, by simp only [Checking.work, Checking.acquire, hpc, CCheckQueue.enter]; rfl⟩
  | woken => exact ⟨.lock master, _, by simp only [Checking.work, Checking.acquire, hpc, CCheckQueue.enter]; rfl⟩
  | locked => cases h.locked master hpc
  | working vChecks rest fOk => exact hworking master vChecks rest fOk hpc
  | waiting =>
    obtain ⟨hqueue, htodo⟩ := h.masterWaits hpc
    have hsum : ∑ i, (s.pc i).tally.1 ≠ 0 := by
      have hcard := h.card_eq
      rw [hqueue, Prod.fst_sum] at hcard
      intro hzero
      rw [hzero] at hcard
      exact htodo hcard
    obtain ⟨i, -, hi⟩ := Finset.exists_ne_zero_of_sum_ne_zero hsum
    cases hpi : s.pc i with
    | working vChecks rest fOk => exact hworking i vChecks rest fOk hpi
    | _ =>
      rw [hpi] at hi
      exact absurd rfl hi

/-- In every order of the threads' steps, `Wait` returns whether all checks added since the last one succeed, and leaves the
queue as unused. While the master is in it, the threads can only make a bounded number of steps, and as long as it has not
returned, one of them can go on. -/
theorem wait_returns_all (nBatchSizeIn : Nat) (actions : List (CheckAction ι T)) :
    let s := (new master nBatchSizeIn).run call master actions
    (∀ r ∈ s.results, r.2 = r.1.all call) ∧
    ((s.pc master).isOutside = true → s.added = [] → s.q.isIdle = true) ∧
    ∀ (works : List (CheckAction ι T)) (t : Checking ι T), works.foldlM (work call master) s = some t →
      works.length ≤ s.left ∧ ((∀ a, t.work call master a = none) → (t.pc master).isOutside = true) := by
  have hinv := inv_run call master nBatchSizeIn actions
  refine ⟨hinv.results, fun _ hadded => hinv.isIdle hadded, fun works t ht => ⟨?_, fun hstuck => ?_⟩⟩
  · have hleft := left_works works _ _ ht
    omega
  · by_contra hm
    obtain ⟨a, s', ha⟩ := (hinv.works works ht).progress (Bool.not_eq_true _ |>.mp hm)
    rw [hstuck a] at ha
    cases ha

end Checking

end DigiWage
