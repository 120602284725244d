import Mathlib.Tactic

/-!
Counted loops of a C function, with `break` and with a `return` from inside the loop, over a
state that the body transforms. A body that does not return (it faults, or it runs out of the
numbers it draws) gives `none`.

The two rules are the loop invariant rule, once for runs that return and once for total
correctness.
-/

namespace Artifice.Lib

/-- How one round of a loop ends: on to the next round, with a `break`, or with a `return`. -/
inductive Flow (σ : Type)
  | next (s : σ)
  | brk (s : σ)
  | ret (code : ℤ) (s : σ)

/-- The state that a round ends with. -/
def Flow.state {σ : Type} : Flow σ → σ
  | .next s | .brk s | .ret _ s => s

/-- `for (j = i; j < i + n; j++) body`. After the loop the flow is `next` (also after a
`break`) or `ret`. -/
def forLoop {σ : Type} (body : ℕ → σ → Option (Flow σ)) : ℕ → ℕ → σ → Option (Flow σ)
  | 0, _, s => some (.next s)
  | n + 1, i, s =>
    match body i s with
    | none => none
    | some (.next s') => forLoop body n (i + 1) s'
    | some (.brk s') => some (.next s')
    | some (.ret code s') => some (.ret code s')

variable {σ : Type} {body : ℕ → σ → Option (Flow σ)} {n i : ℕ} {s : σ} {f : Flow σ}

/-- The flow satisfies the condition for the way it ends. -/
def Flow.Sat (N B : σ → Prop) (R : ℤ → σ → Prop) : Flow σ → Prop
  | .next s => N s
  | .brk s => B s
  | .ret code s => R code s

theorem Flow.Sat.mono {N N' B B' : σ → Prop} {R R' : ℤ → σ → Prop} (h : f.Sat N B R)
    (hN : ∀ s, N s → N' s) (hB : ∀ s, B s → B' s) (hR : ∀ c s, R c s → R' c s) :
    f.Sat N' B' R' := by
  cases f with
  | next s => exact hN s h
  | brk s => exact hB s h
  | ret c s => exact hR c s h

/-- **The invariant rule.** An invariant of the counter and the state, kept by every round that
goes on to the next. -/
theorem forLoop_inv {I : ℕ → σ → Prop} {B : σ → Prop} {R : ℤ → σ → Prop}
    (step : ∀ j s f, i ≤ j → j < i + n → I j s → body j s = some f → f.Sat (I (j + 1)) B R)
    (h0 : I i s) (h : forLoop body n i s = some f) :
    f.Sat (fun s' => I (i + n) s' ∨ B s') (fun _ => False) R := by
  induction n generalizing i s with
  | zero =>
    simp only [forLoop, Option.some.injEq] at h
    subst h
    exact Or.inl h0
  | succ n ih =>
    have hs := fun g => step i s g (le_refl i) (by omega) h0
    rw [forLoop] at h
    split at h
    next => simp at h
    next s' hb =>
      have := ih (fun j s f hj hj' => step j s f (by omega) (by omega)) (hs _ hb) h
      rwa [show i + 1 + n = i + (n + 1) by omega] at this
    next s' hb =>
      simp only [Option.some.injEq] at h
      subst h
      exact Or.inr (hs _ hb)
    next c s' hb =>
      simp only [Option.some.injEq] at h
      subst h
      exact hs _ hb

theorem forLoop_total {I : ℕ → σ → Prop} {B : σ → Prop} {R : ℤ → σ → Prop}
    (step : ∀ j s, i ≤ j → j < i + n → I j s →
      ∃ f, body j s = some f ∧ f.Sat (I (j + 1)) B R)
    (h0 : I i s) :
    ∃ f, forLoop body n i s = some f ∧
      f.Sat (fun s' => I (i + n) s' ∨ B s') (fun _ => False) R := by
  induction n generalizing i s with
  | zero => exact ⟨.next s, rfl, Or.inl h0⟩
  | succ n ih =>
    obtain ⟨f, hf, hs⟩ := step i s (le_refl i) (by omega) h0
    rw [forLoop, hf]
    cases f with
    | next s' =>
      have := ih (fun j s hj hj' => step j s (by omega) (by omega)) hs
      rwa [show i + 1 + n = i + (n + 1) by omega] at this
    | brk s' => exact ⟨.next s', rfl, Or.inr hs⟩
    | ret c s' => exact ⟨.ret c s', rfl, hs⟩

theorem forLoop_congr {body' : ℕ → σ → Option (Flow σ)}
    (h : ∀ j s, i ≤ j → j < i + n → body' j s = body j s) :
    forLoop body' n i s = forLoop body n i s := by
  induction n generalizing i s with
  | zero => rfl
  | succ n ih =>
    have hrest := fun s => @ih (i + 1) s fun j s hj hj' => h j s (by omega) (by omega)
    simp only [forLoop, h i s (le_refl i) (by omega), hrest]

end Artifice.Lib
