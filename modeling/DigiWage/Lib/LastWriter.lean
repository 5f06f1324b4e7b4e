import Mathlib.Order.Basic
import Mathlib.Data.List.Basic
import Mathlib.Order.Lattice

/-!
# Registers of the last writer

A register for each key holds the message with the latest stamp that it received.

* `Latest`: the registers hold messages that they received, and none that they received is later.
* `Latest.receive`, `Latest.write`: receiving a message keeps this, and so does writing one that is not older.
* `Latest.eq`: registers that received the same messages are equal, when no two messages have one key and one stamp.
-/

namespace DigiWage.Lib

variable {K M T : Type*} [LinearOrder T] {key : M → K} {stamp : M → T}

/-- The registers hold the latest of the messages. -/
structure Latest (key : M → K) (stamp : M → T) (reg : K → Option M) (ms : List M) : Prop where
  mem : ∀ k m, reg k = some m → m ∈ ms ∧ key m = k
  le : ∀ m ∈ ms, ∃ a, reg (key m) = some a ∧ stamp m ≤ stamp a

/-- A message is not older than the one in its register. -/
def NotOlder (key : M → K) (stamp : M → T) (reg : K → Option M) (m : M) : Prop :=
  ∀ old, reg (key m) = some old → stamp old < stamp m ∨ old = m

/-- The registers hold later messages. -/
def Grows (stamp : M → T) (reg reg' : K → Option M) : Prop :=
  ∀ k a, reg k = some a → ∃ a', reg' k = some a' ∧ stamp a ≤ stamp a'

variable {reg reg' : K → Option M} {ms ms' : List M} {m : M}

theorem Grows.refl : Grows stamp reg reg := fun _ a ha => ⟨a, ha, le_rfl⟩

theorem Latest.eq (h : Latest key stamp reg ms) (h' : Latest key stamp reg' ms') (hsame : ∀ m, m ∈ ms' ↔ m ∈ ms)
    (hunique : ∀ m ∈ ms, ∀ m' ∈ ms, key m = key m' → stamp m = stamp m' → m = m') : reg = reg' := by
  funext k
  cases hr : reg k with
  | none =>
    cases hr' : reg' k with
    | none => rfl
    | some a' =>
      obtain ⟨hmem, rfl⟩ := h'.mem k a' hr'
      obtain ⟨a, ha, -⟩ := h.le a' ((hsame a').mp hmem)
      rw [hr] at ha
      cases ha
  | some a =>
    obtain ⟨hmem, rfl⟩ := h.mem k a hr
    obtain ⟨a', ha', hle⟩ := h'.le a ((hsame a).mpr hmem)
    obtain ⟨hmem', hkey⟩ := h'.mem _ a' ha'
    obtain ⟨b, hb, hle'⟩ := h.le a' ((hsame a').mp hmem')
    rw [hkey, hr] at hb
    cases hb
    rw [ha', hunique a hmem a' ((hsame a').mp hmem') hkey.symm (le_antisymm hle hle')]

variable [DecidableEq K]

/-- The registers take a message that is later than the one they hold. -/
def receive (key : M → K) (stamp : M → T) (reg : K → Option M) (m : M) : K → Option M :=
  match reg (key m) with
  | none => Function.update reg (key m) (some m)
  | some old => if stamp old < stamp m then Function.update reg (key m) (some m) else reg

theorem grows_write (hnew : NotOlder key stamp reg m) : Grows stamp reg (Function.update reg (key m) (some m)) := by
  intro k a ha
  by_cases hk : k = key m
  · subst hk
    refine ⟨m, Function.update_self _ _ _, ?_⟩
    rcases hnew a ha with hlt | rfl
    · exact hlt.le
    · exact le_rfl
  · exact ⟨a, (Function.update_of_ne hk _ _).trans ha, le_rfl⟩

theorem receive_cases (key : M → K) (stamp : M → T) (reg : K → Option M) (m : M) :
    receive key stamp reg m = Function.update reg (key m) (some m) ∧ NotOlder key stamp reg m ∨
      receive key stamp reg m = reg ∧ ∃ a, reg (key m) = some a ∧ stamp m ≤ stamp a := by
  unfold receive NotOlder
  cases h : reg (key m) with
  | none =>
    refine .inl ⟨rfl, fun old hold => ?_⟩
    cases hold
  | some old =>
    by_cases hlt : stamp old < stamp m
    · refine .inl ⟨if_pos hlt, fun old' hold => ?_⟩
      cases hold
      exact .inl hlt
    · exact .inr ⟨if_neg hlt, old, rfl, not_lt.mp hlt⟩

theorem grows_receive (reg : K → Option M) (m : M) : Grows stamp reg (receive key stamp reg m) := by
  rcases receive_cases key stamp reg m with ⟨heq, hnew⟩ | ⟨heq, -⟩
  · rw [heq]
    exact grows_write hnew
  · rw [heq]
    exact .refl

theorem Latest.write (h : Latest key stamp reg ms) (hnew : NotOlder key stamp reg m) :
    Latest key stamp (Function.update reg (key m) (some m)) (ms ++ [m]) := by
  constructor
  · intro k a ha
    by_cases hk : k = key m
    · subst hk
      rw [Function.update_self] at ha
      cases ha
      exact ⟨List.mem_append_right _ List.mem_cons_self, rfl⟩
    · rw [Function.update_of_ne hk] at ha
      obtain ⟨hmem, hkey⟩ := h.mem k a ha
      exact ⟨List.mem_append_left _ hmem, hkey⟩
  · intro a ha
    rcases List.mem_append.mp ha with ha | ha
    · obtain ⟨b, hb, hle⟩ := h.le a ha
      obtain ⟨c, hc, hle'⟩ := grows_write hnew (key a) b hb
      exact ⟨c, hc, hle.trans hle'⟩
    · rw [List.mem_singleton.mp ha]
      exact ⟨m, Function.update_self _ _ _, le_rfl⟩

theorem Latest.receive (h : Latest key stamp reg ms) (m : M) :
    Latest key stamp (receive key stamp reg m) (ms ++ [m]) := by
  rcases receive_cases key stamp reg m with ⟨heq, hnew⟩ | ⟨heq, a, ha, hle⟩
  · rw [heq]
    exact h.write hnew
  · rw [heq]
    constructor
    · intro k b hb
      obtain ⟨hmem, hkey⟩ := h.mem k b hb
      exact ⟨List.mem_append_left _ hmem, hkey⟩
    · intro b hb
      rcases List.mem_append.mp hb with hb | hb
      · exact h.le b hb
      · rw [List.mem_singleton.mp hb]
        exact ⟨a, ha, hle⟩

end DigiWage.Lib
