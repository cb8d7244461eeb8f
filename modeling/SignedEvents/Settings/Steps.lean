import SignedEvents.Settings.Basic

/-! # Steps of live settings

  Live settings are changed in steps: some of them are given other values by name, or other
  settings are swapped in as a whole.

  - **LiveSettings.Step** — one of the two.
  - **LiveSettings.change** — changes that are passed by name.
  - **LiveSettings.step**, **LiveSettings.run** — one step, and several one after the other.
-/

namespace SignedEvents.LiveSettings

open Json (Members)

/-- The name of the holder itself among what is passed to it by name. -/
def holderName : String := "self"

/-- Why nothing is swapped in. -/
inductive Refusal where
  /-- A change has the name of the holder. -/
  | namesHolder
  /-- The settings after the changes have problems. -/
  | invalid (problems : List Problem)

/-- A way to change live settings. -/
inductive Step where
  /-- Some settings get other values. -/
  | update (changes : Members)
  /-- Other settings are swapped in. -/
  | replace (settings : Settings)

/-- Swaps in the settings after some changes that are passed by name. -/
def change (h : LiveSettings) (changes : Members) : Except Refusal LiveSettings :=
  if (changes.get? holderName).isSome then .error .namesHolder
  else (h.update changes).mapError .invalid

/-- The holder after a step, and the settings that have been swapped in. -/
def step (h : LiveSettings) : Step → LiveSettings × Except Refusal Settings
  | .update changes =>
    match h.change changes with
    | .ok next => (next, .ok next.current)
    | .error refusal => (h, .error refusal)
  | .replace settings => (h.replace settings, .ok settings)

/-- The holder after some steps, and what came of each, first one first. -/
def run (h : LiveSettings) (steps : List Step) :
    LiveSettings × List (Except Refusal Settings) :=
  steps.foldl
    (fun (h, reports) s =>
      let (next, report) := h.step s
      (next, reports ++ [report]))
    (h, [])

end SignedEvents.LiveSettings
