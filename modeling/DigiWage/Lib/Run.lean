import Mathlib.Data.List.Basic
import Mathlib.Logic.Function.Basic

/-!
# Runs

A run applies operations one after the other, as long as each has a result. `Meets` says that each operation meets a
condition in the state in which it starts, and `Occurs` that one operation does.

* `Meets.keeps_along`: what every operation that meets the condition keeps, of the operations so far and the state, holds
  at the end of the run.
* `Meets.of_kept`: what follows from the condition where an invariant holds is met along the whole run.
* `Meets.exists_run`: a run whose operations have a result wherever they meet the condition has one.
* `Meets.reaches`: what one operation brings about and all others keep holds at the end of the run.
-/

namespace DigiWage.Lib

variable {S O : Type*} {step : S → O → Option S} {P Q A : S → O → Prop}

/-- Each operation of a run from the state meets the condition in the state it starts from. -/
def Meets (step : S → O → Option S) (P : S → O → Prop) : S → List O → Prop
  | _, [] => True
  | s, o :: os => P s o ∧ ∀ s', step s o = some s' → Meets step P s' os

/-- An operation of a run from the state meets the condition in the state it starts from. -/
def Occurs (step : S → O → Option S) (A : S → O → Prop) : S → List O → Prop
  | _, [] => False
  | s, o :: os => A s o ∨ ∃ s', step s o = some s' ∧ Occurs step A s' os

instance decidableMeets (step : S → O → Option S) (P : S → O → Prop) [∀ s o, Decidable (P s o)] :
    ∀ (os : List O) (s : S), Decidable (Meets step P s os)
  | [], _ => isTrue trivial
  | o :: os, s =>
    match h : step s o with
    | none => decidable_of_iff (P s o) ⟨fun hP => ⟨hP, fun s' hs' => by rw [h] at hs'; cases hs'⟩, And.left⟩
    | some s₁ =>
      have := decidableMeets step P os s₁
      decidable_of_iff (P s o ∧ Meets step P s₁ os)
        ⟨fun ⟨hP, hrest⟩ => ⟨hP, fun s' hs' => by rw [h] at hs'; cases hs'; exact hrest⟩, fun ⟨hP, hrest⟩ => ⟨hP, hrest s₁ h⟩⟩

theorem foldlM_cons_some {s s' : S} {o : O} {os : List O} (h : (o :: os).foldlM step s = some s') :
    ∃ s₁, step s o = some s₁ ∧ os.foldlM step s₁ = some s' := by
  rwa [List.foldlM_cons, Option.bind_eq_bind, Option.bind_eq_some_iff] at h

theorem Meets.cons {s : S} {o : O} {os : List O} (s₁ : S) (hP : P s o) (h : step s o = some s₁)
    (hrest : Meets step P s₁ os) : Meets step P s (o :: os) := by
  refine ⟨hP, fun s' hs' => ?_⟩
  rw [h] at hs'
  cases hs'
  exact hrest

theorem Meets.of_forall : ∀ {os : List O} {s : S}, (∀ o ∈ os, ∀ s, P s o) → Meets step P s os
  | [], _, _ => trivial
  | o :: _, s, h => ⟨h o List.mem_cons_self s, fun _ _ => of_forall fun o' ho' => h o' (List.mem_cons_of_mem _ ho')⟩

theorem Meets.and : ∀ {os : List O} {s : S}, Meets step P s os → Meets step Q s os →
    Meets step (fun s o => P s o ∧ Q s o) s os
  | [], _, _, _ => trivial
  | _ :: _, _, ⟨hP, hPs⟩, ⟨hQ, hQs⟩ => ⟨⟨hP, hQ⟩, fun s' hs' => (hPs s' hs').and (hQs s' hs')⟩

theorem Meets.of_append : ∀ {pre os : List O} {s s₁ : S}, Meets step P s (pre ++ os) → pre.foldlM step s = some s₁ →
    Meets step P s₁ os
  | [], _, _, _, hmeets, hrun => by
    cases hrun
    exact hmeets
  | _ :: _, _, _, _, ⟨_, hrest⟩, hrun => by
    obtain ⟨s₂, h₂, hrun⟩ := foldlM_cons_some hrun
    exact (hrest s₂ h₂).of_append hrun

theorem Meets.of_append_left : ∀ {pre os : List O} {s : S}, Meets step P s (pre ++ os) → Meets step P s pre
  | [], _, _, _ => trivial
  | _ :: _, _, _, ⟨hP, hrest⟩ => ⟨hP, fun s' hs' => (hrest s' hs').of_append_left⟩

theorem Meets.keeps_along {I : List O → S → Prop}
    (hstep : ∀ pre s o s', I pre s → P s o → step s o = some s' → I (pre ++ [o]) s') : ∀ {os : List O} (pre : List O)
    {s s' : S}, I pre s → Meets step P s os → os.foldlM step s = some s' → I (pre ++ os) s'
  | [], pre, s, s', hI, _, hrun => by
    cases hrun
    rw [List.append_nil]
    exact hI
  | o :: os, pre, s, s', hI, ⟨hP, hrest⟩, hrun => by
    obtain ⟨s₁, h₁, hrun⟩ := foldlM_cons_some hrun
    have h := Meets.keeps_along hstep (pre ++ [o]) (hstep pre s o s₁ hI hP h₁) (hrest s₁ h₁) hrun
    rwa [List.append_assoc] at h

theorem Meets.keeps {I : S → Prop} (hstep : ∀ s o s', I s → P s o → step s o = some s' → I s') {os : List O} {s s' : S}
    (hI : I s) (hmeets : Meets step P s os) (hrun : os.foldlM step s = some s') : I s' :=
  Meets.keeps_along (I := fun _ => I) (fun _ => hstep) [] hI hmeets hrun

theorem Meets.exists_run {I : S → Prop} (hstep : ∀ s o, I s → P s o → ∃ s', step s o = some s' ∧ I s') :
    ∀ {os : List O} {s : S}, I s → Meets step P s os → ∃ s', os.foldlM step s = some s' ∧ I s'
  | [], s, hI, _ => ⟨s, rfl, hI⟩
  | o :: os, s, hI, ⟨hP, hrest⟩ => by
    obtain ⟨s₁, h₁, hI₁⟩ := hstep s o hI hP
    obtain ⟨s', hrun, hI'⟩ := Meets.exists_run hstep hI₁ (hrest s₁ h₁)
    exact ⟨s', by rw [List.foldlM_cons, h₁]; exact hrun, hI'⟩

theorem Meets.of_kept {I : S → Prop} (hstep : ∀ s o s', I s → P s o → step s o = some s' → I s')
    (hQ : ∀ s o, I s → P s o → Q s o) : ∀ {os : List O} {s : S}, I s → Meets step P s os → Meets step Q s os
  | [], _, _, _ => trivial
  | o :: _, s, hI, ⟨hP, hrest⟩ =>
    ⟨hQ s o hI hP, fun s' hs' => (hrest s' hs').of_kept hstep hQ (hstep s o s' hI hP hs')⟩

theorem Meets.reaches {K : S → Prop} (hkeep : ∀ s o s', K s → P s o → step s o = some s' → K s')
    (hreach : ∀ s o s', A s o → P s o → step s o = some s' → K s') : ∀ {os : List O} {s s' : S}, Meets step P s os →
    Occurs step A s os → os.foldlM step s = some s' → K s'
  | o :: os, s, s', ⟨hP, hrest⟩, hocc, hrun => by
    obtain ⟨s₁, h₁, hrun⟩ := foldlM_cons_some hrun
    rcases hocc with hA | ⟨s₂, h₂, hocc⟩
    · exact (hrest s₁ h₁).keeps hkeep (hreach s o s₁ hA hP h₁) hrun
    · rw [h₁] at h₂
      cases h₂
      exact (hrest s₁ h₁).reaches hkeep hreach hocc hrun

/-! ## Maps that agree off some keys -/

section EqOff

variable {A B : Type*} {K : A → Prop} {f g : A → B} {a : A}

/-- The maps agree off the marked keys. -/
def EqOff (K : A → Prop) (f g : A → B) : Prop := ∀ a, ¬ K a → f a = g a

theorem EqOff.refl (K : A → Prop) (f : A → B) : EqOff K f f := fun _ _ => rfl

theorem EqOff.symm (h : EqOff K f g) : EqOff K g f := fun a ha => (h a ha).symm

theorem EqOff.map {C : Type*} (h : EqOff K f g) (c : A → B → C) : EqOff K (fun a => c a (f a)) fun a => c a (g a) :=
  fun a ha => congrArg (c a) (h a ha)

variable [DecidableEq A]

theorem EqOff.update (h : EqOff K f g) (a : A) (b : B) : EqOff K (Function.update f a b) (Function.update g a b) := by
  intro x hx
  rw [Function.update_apply, Function.update_apply, h x hx]

theorem EqOff.update_left (h : EqOff K f g) (ha : K a) (b : B) : EqOff K (Function.update f a b) g := by
  intro x hx
  have hne : x ≠ a := by
    rintro rfl
    exact hx ha
  rw [Function.update_of_ne hne, h x hx]

end EqOff

end DigiWage.Lib
