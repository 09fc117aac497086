import ModulePack.Number.Decimal

/-!
# Sizes and durations

How a count of bytes and a span of time are shown to a reader.
-/

namespace ModulePack

def kilobyte : Nat := 1024
def megabyte : Nat := 1024 * kilobyte

/-- The quotient of two counts with two places. -/
def quotientText (count unit : Nat) : Text :=
  match (do (← Binary64.ofNat? count).div? (← Binary64.ofNat? unit)) with
  | some x => x.fixed 2
  | none => []

/-- A size in bytes below one kilobyte, and with two places in the largest unit that it reaches. -/
def sizeText (bytes : Nat) : Text :=
  if megabyte ≤ bytes then quotientText bytes megabyte ++ " MB".toList
  else if kilobyte ≤ bytes then quotientText bytes kilobyte ++ " KB".toList
  else Text.ofNat bytes ++ " B".toList

/-- A span of time in whole seconds and nanoseconds. -/
structure Duration where
  seconds : Nat
  nanoseconds : Nat
  deriving DecidableEq

/-- The span in seconds. -/
def Duration.inSeconds? (d : Duration) : Option Binary64 := do
  let part ← (← Binary64.ofNat? d.nanoseconds).div? (← Binary64.ofNat? 1000000000)
  (← Binary64.ofNat? d.seconds).add? part

/-- Seconds with two places from one second on, whole milliseconds below. -/
def Duration.text (d : Duration) : Text :=
  match d.inSeconds? with
  | none => []
  | some x =>
    if x.ratio.2 ≤ x.ratio.1 then x.fixed 2 ++ "s".toList
    else
      match (do x.mul? (← Binary64.ofNat? 1000)) with
      | some ms => ms.fixed 0 ++ "ms".toList
      | none => []

end ModulePack
