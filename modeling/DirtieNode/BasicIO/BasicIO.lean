import DirtieNode.State.Ram

/-!
# The button and the LED

`basicio.c`. Times are in microseconds since boot, and the button pulls its pin low.
-/

namespace DirtieNode.BasicIO

open State

/-- `RESET_BUTTON_MS`. -/
def resetButtonMs : Int := 3000

/-- `BLINK_INTERVAL_AP_MODE_MS`. -/
def blinkIntervalApModeMs : Int := 1000

/-- `absolute_time_diff_us`. -/
def absoluteTimeDiffUs (start stop : Nat) : Int :=
  stop - start

/-- `basicio_init_handler`, which sets up the pin. -/
def basicioInitHandler (ram : Ram) : Ram :=
  ram

/-- The blinking of `basicio_listen_handler`. -/
def blink (now : Nat) (ctx : AppCtx) : AppCtx :=
  if ctx.loopState = .wifiConfig ∧
      absoluteTimeDiffUs ctx.blinkTs now > blinkIntervalApModeMs * 1000 then
    { ctx with blinkOn := !ctx.blinkOn, blinkTs := now }
  else ctx

/-- The button in `basicio_listen_handler`. -/
def resetButton (now : Nat) (pressed : Bool) (ctx : AppCtx) : AppCtx :=
  if pressed then
    let ctx := if !ctx.resetPressed then { ctx with resetPressed := true, resetPressedTs := now }
      else ctx
    if absoluteTimeDiffUs ctx.resetPressedTs now > resetButtonMs * 1000 then
      { ctx with reset := true }
    else ctx
  else { ctx with resetPressed := false }

/-- `basicio_listen_handler`. -/
def basicioListenHandler (env : Env) (ram : Ram) : Ram :=
  { ram with ctx := resetButton env.now env.pressed (blink env.now ram.ctx) }

/-! ## Long presses -/

/-- A reading of the button. -/
structure Sample where
  pressed : Bool
  now : Nat

/-- The button has been pressed in every sample over a span of more than three seconds up to the
newest one. Samples are in order, the newest first. -/
def LongPress (samples : List Sample) : Prop :=
  ∃ last ∈ samples.head?, ∃ first ∈ samples.takeWhile Sample.pressed,
    resetButtonMs * 1000 < absoluteTimeDiffUs first.now last.now

instance (samples : List Sample) : Decidable (LongPress samples) :=
  inferInstanceAs (Decidable (∃ _ ∈ _, ∃ _ ∈ _, _))

/-- A call of `basicio_listen_handler`, which finds the flag as `update_state` has left it. -/
def listen (s : Sample) (ram : Ram) : Ram :=
  basicioListenHandler { now := s.now, pressed := s.pressed }
    { ram with ctx := { ram.ctx with reset := false } }

/-- Blinking leaves the button alone. -/
theorem blink_button (now : Nat) (ctx : AppCtx) :
    (blink now ctx).reset = ctx.reset ∧ (blink now ctx).resetPressed = ctx.resetPressed ∧
      (blink now ctx).resetPressedTs = ctx.resetPressedTs := by
  unfold blink
  split <;> exact ⟨rfl, rfl, rfl⟩

/-- A sample with the button down keeps the start of the press, or begins one. -/
theorem resetButton_pressed (now : Nat) (ctx : AppCtx) :
    resetButton now true ctx =
      let start := if ctx.resetPressed then ctx.resetPressedTs else now
      { ctx with
        resetPressed := true, resetPressedTs := start,
        reset := ctx.reset || decide (absoluteTimeDiffUs start now > resetButtonMs * 1000) } := by
  unfold resetButton
  obtain ⟨⟩ := ctx
  rename_i reset _ pressed _ _
  cases pressed <;> cases reset <;> simp <;> split <;> simp_all

/-- A sample with the button up ends the press and asks for no reset. -/
theorem listen_released (now : Nat) (ram : Ram) :
    (listen ⟨false, now⟩ ram).ctx.reset = false ∧
      (listen ⟨false, now⟩ ram).ctx.resetPressed = false := by
  obtain ⟨hreset, -, -⟩ := blink_button now { ram.ctx with reset := false }
  exact ⟨hreset, rfl⟩

/-- A sample with the button down asks for a reset when the press is long enough. -/
theorem listen_pressed (now : Nat) (ram : Ram) :
    (listen ⟨true, now⟩ ram).ctx.resetPressed = true ∧
      (listen ⟨true, now⟩ ram).ctx.resetPressedTs =
        (if ram.ctx.resetPressed then ram.ctx.resetPressedTs else now) ∧
      (listen ⟨true, now⟩ ram).ctx.reset = decide (resetButtonMs * 1000 <
        absoluteTimeDiffUs (listen ⟨true, now⟩ ram).ctx.resetPressedTs now) := by
  obtain ⟨hreset, hpressed, hstart⟩ := blink_button now { ram.ctx with reset := false }
  simp only [listen, basicioListenHandler, resetButton_pressed, hreset, hpressed, hstart,
    Bool.false_or, gt_iff_lt, and_self]

/-- What the handler remembers of the samples: the time of the first one of the current press. -/
def Remembers (samples : List Sample) (ctx : AppCtx) : Prop :=
  (if ctx.resetPressed then some ctx.resetPressedTs else none) =
    (samples.takeWhile Sample.pressed).getLast?.map Sample.now

/-- The handler remembers one more sample. -/
theorem remembers_listen {samples : List Sample} {ram : Ram} (s : Sample)
    (h : Remembers samples ram.ctx) : Remembers (s :: samples) (listen s ram).ctx := by
  obtain ⟨pressed, now⟩ := s
  unfold Remembers at *
  cases pressed with
  | false => simp [(listen_released now ram).2]
  | true =>
      obtain ⟨hset, hstart, -⟩ := listen_pressed now ram
      rw [if_pos hset, hstart, List.takeWhile_cons_of_pos rfl, List.getLast?_cons]
      cases hpressed : ram.ctx.resetPressed with
      | false =>
          -- the press starts with this sample
          have hnone : (samples.takeWhile Sample.pressed).getLast? = none := by
            simpa [hpressed] using h.symm
          simp [hnone]
      | true =>
          rw [if_pos hpressed] at h
          obtain ⟨first, hfirst, hstart⟩ := Option.map_eq_some_iff.mp h.symm
          simp [hfirst, hstart]

/-- Over a clock that does not go back, a sample sets the flag exactly at the end of a long
press. -/
theorem listen_reset_iff {samples : List Sample} {ram : Ram} {s : Sample}
    (horder : (s :: samples).Pairwise fun newer older ↦ older.now ≤ newer.now)
    (h : Remembers samples ram.ctx) :
    (listen s ram).ctx.reset = true ↔ LongPress (s :: samples) := by
  have hremembers := remembers_listen s h
  obtain ⟨pressed, now⟩ := s
  cases pressed with
  | false => simp [(listen_released now ram).1, LongPress]
  | true =>
      obtain ⟨hset, -, hreset⟩ := listen_pressed now ram
      rw [Remembers, if_pos hset] at hremembers
      obtain ⟨first, hfirst, hstart⟩ := Option.map_eq_some_iff.mp hremembers.symm
      rw [hreset, ← hstart, decide_eq_true_eq]
      constructor
      · intro hlong
        exact ⟨⟨true, now⟩, rfl, first, List.mem_of_getLast? hfirst, hlong⟩
      · rintro ⟨last, hlast, other, hother, hlong⟩
        obtain rfl := Option.some.inj hlast
        -- the first sample of the press is the earliest
        obtain ⟨earlier, hearlier⟩ := List.getLast?_eq_some_iff.mp hfirst
        have hle : first.now ≤ other.now := by
          have hpress := horder.sublist (List.takeWhile_sublist Sample.pressed)
          rw [hearlier] at hpress hother
          rcases List.mem_append.mp hother with hmem | hmem
          · exact (List.pairwise_append.mp hpress).2.2 other hmem first List.mem_cons_self
          · rw [List.mem_singleton.mp hmem]
        unfold absoluteTimeDiffUs at *
        dsimp only at hlong
        omega

/-- A loop that calls `basicio_listen_handler` in each iteration resets on long presses, and on
nothing else. -/
theorem listen_run_iff {samples : List Sample} {ram : Ram} {s : Sample}
    (horder : (s :: samples).Pairwise fun newer older ↦ older.now ≤ newer.now)
    (hram : ram.ctx.resetPressed = false) :
    ((s :: samples).foldr listen ram).ctx.reset = true ↔ LongPress (s :: samples) := by
  have hremembers : ∀ samples, Remembers samples (List.foldr listen ram samples).ctx := by
    intro samples
    induction samples with
    | nil => simp [Remembers, hram]
    | cons s samples ih => exact remembers_listen s ih
  exact listen_reset_iff horder (hremembers samples)

end DirtieNode.BasicIO
