import Mathlib.Data.List.Basic
import Mathlib.Tactic.Common

/-!
# Runs of a labelled transition function

A system is a partial step function `step : S → E → Option S`: `step state event` is the state
after the event, or `none` when the event cannot happen there. `Run step start trace finish` is a
finite execution whose transitions are recorded in `trace`, the newest first, so that a
transition's history is the rest of the list behind it.

`Run.invariant` is the induction rule for invariants. `Along` states a property of each transition
together with its history, `Run.invariant_along` is the rule for runs all of whose transitions meet
such a condition, and `Run.along_iff` turns an equivalence about single transitions into one about
whole runs.
-/

namespace Transition

/-- One transition of a run. -/
structure Taken (S E : Type*) where
  before : S
  event : E
  after : S

variable {S E : Type*} {step : S → E → Option S}

/-- A finite execution from `start` to `finish`, with its transitions, newest first. -/
inductive Run (step : S → E → Option S) (start : S) : List (Taken S E) → S → Prop
  | refl : Run step start [] start
  | step {trace : List (Taken S E)} {middle finish : S} {event : E} :
      Run step start trace middle → step middle event = some finish →
      Run step start (⟨middle, event, finish⟩ :: trace) finish

/-- A state that some run reaches. -/
def Reachable (step : S → E → Option S) (start state : S) : Prop :=
  ∃ trace, Run step start trace state

/-- An invariant of the single steps holds in every state a run reaches. -/
theorem Run.invariant {start finish : S} {trace : List (Taken S E)}
    (h : Run step start trace finish) (inv : S → Prop) (hstart : inv start)
    (hstep : ∀ before event after, inv before → step before event = some after → inv after) :
    inv finish := by
  induction h with
  | refl => exact hstart
  | step _ hlast ih => exact hstep _ _ _ ih hlast

/-- The invariant rule for runs whose transitions all meet a condition. -/
theorem Run.invariant_of_forall {start finish : S} {trace : List (Taken S E)}
    {cond : Taken S E → Prop} (h : Run step start trace finish) (inv : S → Prop)
    (hcond : ∀ taken ∈ trace, cond taken) (hstart : inv start)
    (hstep : ∀ before event after, inv before → step before event = some after →
      cond ⟨before, event, after⟩ → inv after) : inv finish := by
  induction h with
  | refl => exact hstart
  | step _ hlast ih =>
      exact hstep _ _ _ (ih fun taken hmem ↦ hcond taken (List.mem_cons_of_mem _ hmem)) hlast
        (hcond _ List.mem_cons_self)

/-- Each recorded transition is one of the system, and the run up to it is a run. -/
theorem Run.split {start finish : S} {newer older : List (Taken S E)} {taken : Taken S E}
    (h : Run step start (newer ++ taken :: older) finish) :
    Run step start older taken.before ∧ step taken.before taken.event = some taken.after := by
  generalize htrace : newer ++ taken :: older = trace at h
  induction h generalizing newer with
  | refl => simp at htrace
  | step hrun hlast ih =>
      cases newer with
      | nil =>
          obtain ⟨rfl, rfl⟩ := List.cons.inj htrace
          exact ⟨hrun, hlast⟩
      | cons _ newer => exact ih (List.cons.inj htrace).2

/-- Each recorded transition is one of the system, from a state that a run reaches. -/
theorem Run.of_mem {start finish : S} {trace : List (Taken S E)} {taken : Taken S E}
    (h : Run step start trace finish) (hmem : taken ∈ trace) :
    Reachable step start taken.before ∧ step taken.before taken.event = some taken.after := by
  obtain ⟨newer, older, rfl⟩ := List.append_of_mem hmem
  exact ⟨⟨older, h.split.1⟩, h.split.2⟩

/-- Two runs in sequence. -/
theorem Run.trans {start middle finish : S} {first second : List (Taken S E)}
    (hfirst : Run step start first middle) (hsecond : Run step middle second finish) :
    Run step start (second ++ first) finish := by
  induction hsecond with
  | refl => exact hfirst
  | step _ hlast ih => exact .step ih hlast

/-! ## Properties of whole runs -/

/-- The property holds of every transition of a trace together with its history. -/
def Along (property : List (Taken S E) → Taken S E → Prop) : List (Taken S E) → Prop
  | [] => True
  | taken :: older => property older taken ∧ Along property older

/-- A property that can be checked of a transition and its history can be checked along a trace. -/
instance Along.decidable (property : List (Taken S E) → Taken S E → Prop)
    [∀ older taken, Decidable (property older taken)] :
    (trace : List (Taken S E)) → Decidable (Along property trace)
  | [] => .isTrue trivial
  | taken :: older =>
      have := Along.decidable property older
      inferInstanceAs (Decidable (property older taken ∧ Along property older))

/-- The invariant rule for runs whose transitions meet a condition on their history, and for an
invariant that relates a state to its history. -/
theorem Run.invariant_along {start finish : S} {trace : List (Taken S E)}
    {cond : List (Taken S E) → Taken S E → Prop} (h : Run step start trace finish)
    (inv : List (Taken S E) → S → Prop) (hcond : Along cond trace) (hstart : inv [] start)
    (hstep : ∀ older before event after, Run step start older before → inv older before →
      step before event = some after →
      cond older ⟨before, event, after⟩ → inv (⟨before, event, after⟩ :: older) after) :
    inv trace finish := by
  induction h with
  | refl => exact hstart
  | step hprev hlast ih => exact hstep _ _ _ _ hprev (ih hcond.2) hlast hcond.1

/-- If, under an invariant that transitions with the condition preserve, a transition has the
property exactly when it meets the condition, then a run has the property throughout exactly when
all its transitions meet the condition. -/
theorem Run.along_iff {start finish : S} {trace : List (Taken S E)}
    {property cond : List (Taken S E) → Taken S E → Prop} (h : Run step start trace finish)
    (inv : List (Taken S E) → S → Prop) (hstart : inv [] start)
    (hiff : ∀ older before event after, Run step start older before → inv older before →
      step before event = some after →
      (property older ⟨before, event, after⟩ ↔ cond older ⟨before, event, after⟩))
    (hstep : ∀ older before event after, Run step start older before → inv older before →
      step before event = some after →
      cond older ⟨before, event, after⟩ → inv (⟨before, event, after⟩ :: older) after) :
    Along property trace ↔ Along cond trace := by
  induction h with
  | refl => exact Iff.rfl
  | step hprev hlast ih =>
      -- both sides give the condition on the older steps, and with it the invariant
      constructor
      · rintro ⟨hproperty, hrest⟩
        have hcond := ih.mp hrest
        have hinv := hprev.invariant_along inv hcond hstart hstep
        exact ⟨(hiff _ _ _ _ hprev hinv hlast).mp hproperty, hcond⟩
      · rintro ⟨hcond, hrest⟩
        have hinv := hprev.invariant_along inv hrest hstart hstep
        exact ⟨(hiff _ _ _ _ hprev hinv hlast).mpr hcond, ih.mpr hrest⟩

/-- A property that each transition has under an invariant holds along every run. -/
theorem Run.along {start finish : S} {trace : List (Taken S E)}
    {property : List (Taken S E) → Taken S E → Prop} (h : Run step start trace finish)
    (inv : List (Taken S E) → S → Prop) (hstart : inv [] start)
    (hstep : ∀ older before event after, inv older before → step before event = some after →
      inv (⟨before, event, after⟩ :: older) after ∧ property older ⟨before, event, after⟩) :
    Along property trace := by
  have hboth : inv trace finish ∧ Along property trace := by
    induction h with
    | refl => exact ⟨hstart, trivial⟩
    | step _ hlast ih =>
        obtain ⟨hinv, hproperty⟩ := hstep _ _ _ _ ih.1 hlast
        exact ⟨hinv, hproperty, ih.2⟩
  exact hboth.2

/-- `Along` of a property that ignores the history is a property of each transition. -/
theorem along_forall {property : Taken S E → Prop} {trace : List (Taken S E)} :
    Along (fun _ taken ↦ property taken) trace ↔ ∀ taken ∈ trace, property taken := by
  induction trace with
  | nil => simp [Along]
  | cons taken older ih => simp [Along, ih]

/-! ## Simulations -/

/-- The simulation rule. If each transition under a condition is matched by one of another system
with the same event, then each run of such transitions is matched by a run of that system, with
related states on the way. -/
theorem Run.simulates {S' : Type*} {step' : S' → E → Option S'} {start finish : S} {start' : S'}
    {trace : List (Taken S E)} {cond : Taken S E → Prop} (h : Run step start trace finish)
    (rel : S → S' → Prop) (hcond : ∀ taken ∈ trace, cond taken) (hstart : rel start start')
    (hstep : ∀ before event after before', rel before before' → step before event = some after →
      cond ⟨before, event, after⟩ →
      ∃ after', step' before' event = some after' ∧ rel after after') :
    ∃ trace' finish', Run step' start' trace' finish' ∧ rel finish finish' ∧
      List.Forall₂ (fun taken taken' ↦ taken'.event = taken.event ∧
        rel taken.before taken'.before ∧ rel taken.after taken'.after) trace trace' := by
  induction h with
  | refl => exact ⟨[], start', .refl, hstart, .nil⟩
  | @step older before after event _ hlast ih =>
      obtain ⟨older', before', hrun, hbefore, hmatched⟩ := ih fun taken hmem ↦
        hcond taken (List.mem_cons_of_mem _ hmem)
      obtain ⟨after', hlast', hafter⟩ := hstep _ _ _ _ hbefore hlast (hcond _ List.mem_cons_self)
      exact ⟨⟨before', event, after'⟩ :: older', after', .step hrun hlast', hafter,
        .cons ⟨rfl, hbefore, hafter⟩ hmatched⟩

/-- The simulation rule for steps that another system matches by any number of its own, with a
relation between the two runs. -/
theorem Run.matched {S' E' : Type*} {step' : S' → E' → Option S'} {start finish : S} {start' : S'}
    {trace : List (Taken S E)} (h : Run step start trace finish)
    (rel : List (Taken S E) → S → List (Taken S' E') → S' → Prop) (hstart : rel [] start [] start')
    (hstep : ∀ older before event after older' before', rel older before older' before' →
      step before event = some after → ∃ newer' after', Run step' before' newer' after' ∧
        rel (⟨before, event, after⟩ :: older) after (newer' ++ older') after') :
    ∃ trace' finish', Run step' start' trace' finish' ∧ rel trace finish trace' finish' := by
  induction h with
  | refl => exact ⟨[], start', .refl, hstart⟩
  | step _ hlast ih =>
      obtain ⟨older', before', hrun, hbefore⟩ := ih
      obtain ⟨newer', after', hnewer, hafter⟩ := hstep _ _ _ _ _ _ hbefore hlast
      exact ⟨newer' ++ older', after', hrun.trans hnewer, hafter⟩

/-! ## Budgets -/

/-- The rule for budgets. If each step that counts uses up one unit, and only steps that grant add
to the budget, at most `grant` units each, then a run makes no more steps that count than its budget
at the start and what was granted allow. -/
theorem Run.budget {start finish : S} {trace : List (Taken S E)} {cond : Taken S E → Prop}
    (h : Run step start trace finish) (inv : S → Prop) (budget : S → Nat) (grant : Nat)
    (counts grants : Taken S E → Bool) (hcond : ∀ taken ∈ trace, cond taken) (hstart : inv start)
    (hinv : ∀ before event after, inv before → step before event = some after →
      cond ⟨before, event, after⟩ → inv after)
    (hbudget : ∀ before event after, inv before → step before event = some after →
      cond ⟨before, event, after⟩ →
      budget after + (counts ⟨before, event, after⟩).toNat ≤
        budget before + grant * (grants ⟨before, event, after⟩).toNat) :
    budget finish + trace.countP counts ≤ budget start + grant * trace.countP grants := by
  induction h with
  | refl => exact Nat.le_refl _
  | @step older before after event hprev hlast ih =>
      have holder : ∀ taken ∈ older, cond taken := fun taken hmem ↦
        hcond taken (List.mem_cons_of_mem _ hmem)
      have hbefore := hprev.invariant_of_forall inv holder hstart hinv
      have hone := hbudget _ _ _ hbefore hlast (hcond _ List.mem_cons_self)
      have hrest := ih holder
      have hcounts : ∀ p : Taken S E → Bool, (⟨before, event, after⟩ :: older).countP p =
          older.countP p + (p ⟨before, event, after⟩).toNat := by
        intro p
        rw [List.countP_cons]
        cases p ⟨before, event, after⟩ <;> rfl
      rw [hcounts counts, hcounts grants, Nat.mul_add]
      omega

/-! ## Executing a list of events -/

/-- The run through a list of events, oldest first. -/
def record (step : S → E → Option S) (start : S) : List E → Option (List (Taken S E) × S)
  | [] => some ([], start)
  | event :: events =>
      (step start event).bind fun next ↦
        (record step next events).map fun run ↦ (run.1 ++ [⟨start, event, next⟩], run.2)

/-- A recorded execution is a run. -/
theorem run_of_record {start finish : S} {events : List E} {trace : List (Taken S E)}
    (h : record step start events = some (trace, finish)) : Run step start trace finish := by
  induction events generalizing start trace with
  | nil =>
      simp only [record, Option.some.injEq, Prod.mk.injEq] at h
      obtain ⟨rfl, rfl⟩ := h
      exact .refl
  | cons event events ih =>
      simp only [record, Option.bind_eq_some_iff, Option.map_eq_some_iff, Prod.mk.injEq] at h
      obtain ⟨next, hnext, ⟨rest, last⟩, hrest, rfl, rfl⟩ := h
      exact Run.trans (.step .refl hnext) (ih hrest)

/-- A recorded execution that passes a test is a run that passes it. -/
theorem exists_run_of_record (step : S → E → Option S) (start : S) (events : List E)
    (test : List (Taken S E) → S → Bool)
    (h : (record step start events).map (fun run ↦ test run.1 run.2) = some true) :
    ∃ trace finish, Run step start trace finish ∧ test trace finish = true := by
  obtain ⟨⟨trace, finish⟩, hrecord, htest⟩ := Option.map_eq_some_iff.mp h
  exact ⟨trace, finish, run_of_record hrecord, htest⟩

end Transition
