import LeviRsLoader.RustMod

/-!
# Money listeners

The two slots of `Money.cpp`. They take a bare function pointer, so whose it
is can only be told from the module its address lies in.
-/
namespace Money

open LeviRs

structure Registry where
  g_before : Option Ptr
  g_after : Option Ptr
  g_beforeHooked : Bool
  g_afterHooked : Bool
  deriving DecidableEq, Repr

def Registry.initial : Registry := ⟨none, none, false, false⟩

/-- `addressOwnedBy` for the mod's module: `image` gives the mod whose dylib an address lies in. -/
def addressOwnedBy (image : Ptr → Option ModId) (mod : ModId) (fn : Option Ptr) : Bool :=
  match fn with
  | none => false
  | some fn => image fn == some mod

/-- The callback is stored whether or not the backend is there. -/
def api_money_listen_before_event (moneyBackendReady : Bool) (callback : Option Ptr) (s : Registry) : Registry :=
  { s with g_before := callback, g_beforeHooked := s.g_beforeHooked || moneyBackendReady }

def api_money_listen_after_event (moneyBackendReady : Bool) (callback : Option Ptr) (s : Registry) : Registry :=
  { s with g_after := callback, g_afterHooked := s.g_afterHooked || moneyBackendReady }

def moneyOnRustModGone (image : Ptr → Option ModId) (mod : ModId) (s : Registry) : Registry :=
  { s with
    g_before := if addressOwnedBy image mod s.g_before then none else s.g_before,
    g_after := if addressOwnedBy image mod s.g_after then none else s.g_after }

/-- The two listener slots. -/
inductive Slot where
  | before
  | after
  deriving DecidableEq, Repr

def Registry.get (s : Registry) : Slot → Option Ptr
  | .before => s.g_before
  | .after => s.g_after

/-- The sweep empties exactly the slots whose callback lies in the mod's module. -/
theorem get_moneyOnRustModGone (image : Ptr → Option ModId) (mod : ModId) (s : Registry) (slot : Slot) :
    (moneyOnRustModGone image mod s).get slot = (s.get slot).filter fun fn => image fn != some mod := by
  have hslot : ∀ fn : Option Ptr, (if addressOwnedBy image mod fn then none else fn) =
      fn.filter fun fn => image fn != some mod := by
    intro fn
    cases fn with
    | none => rfl
    | some fn => by_cases h : image fn = some mod <;> simp [addressOwnedBy, Option.filter, h]
  cases slot with
  | before => exact hslot s.g_before
  | after => exact hslot s.g_after

end Money
