import LeviRsLoader.Lib.Tables

/-!
# Mods

The identity of a loaded mod, shared by every registry.
-/
namespace LeviRs

/-- A `RustMod*`, as the loader's tables store and compare it. -/
abbrev ModId := Nat

/-- An opaque pointer a mod hands in. -/
abbrev Ptr := Nat

/-- A callback: the function pointer and the `user` pointer it is called with. -/
structure Callback where
  fn : Ptr
  user : Ptr
  deriving DecidableEq, Repr

end LeviRs
