import LeviRsLoader.Lib.Runs
import LeviRsLoader.Registrations

/-!
# Loading a mod

`RustModManager::load`, where the mod's entry point is what it does: the calls
it makes with its handle, its answer and the version it reports. Every exit
after that point finds in the registries whatever the entry point put there.
-/
namespace Loader

open LeviRs

def LEVI_RS_ABI_VERSION : UInt32 := 5

def LEVI_RS_ABI_MIN_SUPPORTED : UInt32 := 1

def LEVI_RS_ABI_TARGET_MASK : UInt32 := 0x80000000

/-- The tag of a server build. -/
def LEVI_RS_ABI_TARGET_TAG : UInt32 := 0

/-- A mod's `levi_rs_main`; `abi_version` is what it leaves in the vtable. -/
structure LeviRsMain where
  calls : List Call
  ok : Bool
  abi_version : UInt32

/-- What stands at the manifest's entry path. -/
inductive Dylib where
  | fails (error : String)
  | noMain
  | exports (main : LeviRsMain)

def runCalls (env : Env) (calls : List Call) (s : State) : State := calls.foldl (Call.apply env) s

def targetName (tag : UInt32) : String := if tag = 0 then "服务端" else "客户端"

/-- The checks on what `levi_rs_main` returned, in their order. -/
def checkMain (name : String) (ok : Bool) (abi_version : UInt32) : Except String Unit :=
  let modTarget := abi_version &&& LEVI_RS_ABI_TARGET_MASK
  let modAbi := abi_version &&& ~~~LEVI_RS_ABI_TARGET_MASK
  if !ok then .error ("'" ++ name ++ "' levi_rs_main returned false")
  else if modTarget ≠ LEVI_RS_ABI_TARGET_TAG then
    .error ("'" ++ name ++ "' 是按 " ++ targetName modTarget ++ " 目标编译的，而这个 loader 是 " ++
      targetName LEVI_RS_ABI_TARGET_TAG ++ " 构建 —— 请用匹配的 cargo feature 重新编译该 mod")
  else if LEVI_RS_ABI_VERSION < modAbi then
    .error ("'" ++ name ++ "' was built against levilamina-rs ABI v" ++ toString modAbi.toNat ++
      ", but this loader only speaks up to v" ++ toString LEVI_RS_ABI_VERSION.toNat ++
      " — update the levilamina-rust-loader mod")
  else if modAbi < LEVI_RS_ABI_MIN_SUPPORTED then
    .error ("'" ++ name ++ "' was built against levilamina-rs ABI v" ++ toString modAbi.toNat ++
      ", which is older than the minimum this loader supports (v" ++ toString LEVI_RS_ABI_MIN_SUPPORTED.toNat ++
      ") — rebuild the mod against a newer levilamina crate")
  else .ok ()

/-- `make_shared<RustMod>`: no listeners yet, commands not muted. -/
def State.makeRustMod (m : ModId) (s : State) : State :=
  { s with events := Events.clearListeners m s.events, commandsMuted := Function.update s.commandsMuted m false }

/-- The mod's `RustMod` is destroyed: its listeners go with it, and nothing else does. -/
def State.dropRustMod (m : ModId) (s : State) : State := { s with events := Events.dropRustMod m s.events }

/-- The part of `load` after `levi_rs_main`. -/
def finishLoad (name : String) (m : ModId) (ok : Bool) (abi_version : UInt32) (s : State) :
    Except String Unit × State :=
  match checkMain name ok abi_version with
  | .error e => (.error e, s.dropRustMod m)
  | .ok () => (.ok (), { s with mods := s.mods.insert name m })

/-- `m` is the `RustMod` made for this load. -/
def load (env : Env) (name : String) (m : ModId) (lib : Dylib) (s : State) : Except String Unit × State :=
  match lib with
  | .fails error => (.error error, (s.makeRustMod m).dropRustMod m)
  | .noMain =>
    (.error ("'" ++ name ++ "' does not export levi_rs_main (is it a levilamina-rs cdylib?)"),
      (s.makeRustMod m).dropRustMod m)
  | .exports main => finishLoad name m main.ok main.abi_version (runCalls env main.calls (s.makeRustMod m))

/-- The callback is one that these calls hand over. -/
def Supplied (calls : List Call) (fn : Ptr) : Prop := ∃ c ∈ calls, fn ∈ c.callbacks

/-- An entry of the mod stands under the key, or one of anybody or nobody with
a callback that the mod's calls hand over. -/
def State.Left (env : Env) (m : ModId) (calls : List Call) (s : State) (e : Entry) : Prop :=
  ∃ mod fns, s.Has env e mod fns ∧ (mod = some m ∨ ∃ fn ∈ fns, Supplied calls fn)

/-- No table has an entry of the mod or a callback that its calls hand over. -/
def State.Clean (env : Env) (m : ModId) (calls : List Call) (s : State) : Prop := ∀ e, ¬s.Left env m calls e

/-- The `RustMod` itself keeps the entry. -/
def Entry.keptByMod : Entry → Bool
  | .listener _ => true
  | _ => false

/-- Every entry these calls make, under whichever handle, one of the later
calls takes out again, unless it is one that goes with the mod's `RustMod`. -/
def AllWithdrawn (env : Env) (m : ModId) (calls : List Call) (s : State) : Prop :=
  ∀ pre c suf e mod, calls = pre ++ c :: suf → c.makes env (runCalls env pre s) = some (e, mod) →
    ∃ mid rest, suf = mid ++ rest ∧ ¬((runCalls env (pre ++ c :: mid) s).dropRustMod m).Left env m calls e

variable {env : Env} {s : State} {m : ModId} {e : Entry} {mod : Option ModId} {fns : List Ptr} {calls : List Call}

theorem wellFormed_runCalls (hs : s.WellFormed) (calls : List Call) : (runCalls env calls s).WellFormed :=
  Runs.foldl_invariant State.WellFormed hs fun _ c h => c.wellFormed_apply h

/-- Destroying the `RustMod` takes out its listeners and nothing else. -/
theorem has_dropRustMod :
    (s.dropRustMod m).Has env e mod fns ↔ s.Has env e mod fns ∧ ¬(e.keptByMod = true ∧ mod = some m) := by
  cases e with
  | listener id =>
    constructor
    · rintro ⟨m', slot, hl, hid, rfl, hf⟩
      rw [State.dropRustMod, Events.listenersOf_erase] at hl
      split at hl
      · cases hl
      · next hne => exact ⟨⟨m', slot, hl, hid, rfl, hf⟩, fun h => hne (Option.some.inj h.2)⟩
    · rintro ⟨⟨m', slot, hl, hid, rfl, hf⟩, hne⟩
      refine ⟨m', slot, ?_, hid, rfl, hf⟩
      rwa [State.dropRustMod, Events.listenersOf_erase, if_neg fun h => hne ⟨rfl, congrArg some h⟩]
  | _ => exact ⟨fun h => ⟨h, fun hk => nomatch hk.1⟩, fun h => h.1⟩

theorem State.Owns.of_dropRustMod {m' : ModId} (h : (s.dropRustMod m').Owns env m e) : s.Owns env m e :=
  owns_of_has' (t := s.dropRustMod m') rfl (fun _ h => (has_dropRustMod.mp h).1) h

/-- A fresh `RustMod` has no listeners; other entries are as before. -/
theorem has_clearListeners
    (h : { s with events := Events.clearListeners m s.events }.Has env e mod fns) : s.Has env e mod fns := by
  obtain ⟨id, rfl | rfl⟩ | h := h.of_events
  · exact h
  · obtain ⟨m', slot, hl, hrest⟩ := h
    rw [Events.clearListeners, Events.listenersOf_insert] at hl
    split at hl
    · cases hl
    · exact ⟨m', slot, hl, hrest⟩
  · exact h

theorem owns_clearListeners {m' : ModId}
    (h : { s with events := Events.clearListeners m' s.events }.Owns env m e) : s.Owns env m e :=
  owns_of_has' (t := { s with events := Events.clearListeners m' s.events }) rfl (fun _ => has_clearListeners) h

theorem wellFormed_makeRustMod (hs : s.WellFormed) (m : ModId) : (s.makeRustMod m).WellFormed :=
  ⟨hs.task, hs.sub, hs.service, hs.lane, hs.binding⟩

theorem has_makeRustMod (h : (s.makeRustMod m).Has env e mod fns) : s.Has env e mod fns := by
  cases e <;> exact has_clearListeners (m := m) h

/-- Whoever's table is left clean owns nothing either. -/
theorem State.Clean.not_owns (h : s.Clean env m calls) : ¬s.Owns env m e := by
  intro howns
  obtain ⟨fns, hhas⟩ := howns.has
  exact h e ⟨_, fns, hhas, .inl rfl⟩

theorem finishLoad_error {name : String} {ok : Bool} {abi_version : UInt32} {error : String}
    (h : (finishLoad name m ok abi_version s).1 = .error error) :
    (finishLoad name m ok abi_version s).2 = s.dropRustMod m := by
  unfold finishLoad at h ⊢
  split at h
  · rfl
  · cases h

/-- What a call leaves was there before, or the call made it. -/
theorem left_apply (hs : s.WellFormed) (c : Call) (h : ((c.apply env s).dropRustMod m).Left env m calls e) :
    (s.dropRustMod m).Left env m calls e ∨ ∃ mod, c.makes env s = some (e, mod) := by
  obtain ⟨mod, fns, hhas, hleft⟩ := h
  obtain ⟨hhas, hkept⟩ := has_dropRustMod.mp hhas
  rcases c.has_apply hs hhas with hbefore | hmade
  · exact .inl ⟨mod, fns, has_dropRustMod.mpr ⟨hbefore, hkept⟩, hleft⟩
  · exact .inr ⟨mod, hmade⟩

/-- What some calls leave was made by one of them and not taken out since. -/
theorem left_runCalls (hs : s.WellFormed) (hnew : ¬(s.dropRustMod m).Left env m calls e) {run : List Call}
    (h : ((runCalls env run s).dropRustMod m).Left env m calls e) :
    ∃ pre c suf mod, run = pre ++ c :: suf ∧ c.makes env (runCalls env pre s) = some (e, mod) ∧
      ∀ mid rest, suf = mid ++ rest → ((runCalls env (pre ++ c :: mid) s).dropRustMod m).Left env m calls e := by
  obtain ⟨pre, c, suf, rfl, hpre, hmid⟩ :=
    Runs.exists_last_switch (fun s : State => (s.dropRustMod m).Left env m calls e) hnew h
  have hone := hmid [] suf rfl
  rw [List.foldl_append] at hone
  obtain ⟨mod, hmakes⟩ := (left_apply (wellFormed_runCalls hs pre) c hone).resolve_left hpre
  exact ⟨pre, c, suf, mod, rfl, hmakes, hmid⟩

theorem load_of_not_ok (env : Env) (name : String) (m : ModId) {main : LeviRsMain} (s : State) (h : main.ok = false) :
    ∃ error, (load env name m (.exports main) s).1 = .error error := by
  simp [load, finishLoad, checkMain, h]

/-- A load that fails after `levi_rs_main` leaves nothing of the mod behind
exactly when `levi_rs_main` had itself taken out again whatever it registered. -/
theorem failedLoad_clean_iff (name : String) (main : LeviRsMain) (hs : s.WellFormed) (hnew : s.Clean env m main.calls)
    (hfail : ∃ error, (load env name m (.exports main) s).1 = .error error) :
    (load env name m (.exports main) s).2.Clean env m main.calls ↔
      AllWithdrawn env m main.calls (s.makeRustMod m) := by
  obtain ⟨error, herror⟩ := hfail
  rw [load, finishLoad_error herror]
  constructor
  · intro hclean pre c suf e mod hcalls _
    refine ⟨suf, [], by simp, ?_⟩
    rw [← hcalls]
    exact hclean e
  · intro hall e hleft
    have hnew' : ¬((s.makeRustMod m).dropRustMod m).Left env m main.calls e := by
      rintro ⟨mod, fns, hhas, h⟩
      exact hnew e ⟨mod, fns, has_makeRustMod (has_dropRustMod.mp hhas).1, h⟩
    obtain ⟨pre, c, suf, mod, hcalls, hmakes, hstays⟩ := left_runCalls (wellFormed_makeRustMod hs m) hnew' hleft
    obtain ⟨mid, rest, hsuf, hgone⟩ := hall pre c suf e mod hcalls hmakes
    exact hgone (hstays mid rest hsuf)

/-! ## A task that outlives its load -/

def quietEnv : Env := ⟨CommandRuns.noFloats, fun _ => [], fun _ => none⟩

def hookNames : List String := ["MobPushEvent"]

/-- Mod 7 schedules a task and then reports failure. -/
def scheduleAndFail : LeviRsMain := ⟨[.api_schedule_for (fun _ => true) (some 7) (some 100) 0], false, 5⟩

theorem clean_initial (calls : List Call) : (State.initial hookNames).Clean quietEnv 7 calls := by
  rintro e ⟨mod, fns, hhas, -⟩
  exact not_has_initial quietEnv hookNames e mod fns hhas

/-- The task of a mod whose load failed is still in the table. -/
theorem failedLoad_leaves_task :
    ¬∀ env name m main s, State.WellFormed s → s.Clean env m main.calls →
      (∃ error, (load env name m (.exports main) s).1 = .error error) →
      (load env name m (.exports main) s).2.Clean env m main.calls := by
  intro h
  have hclean := h quietEnv "m" 7 scheduleAndFail (.initial hookNames) (wellFormed_initial _) (clean_initial _)
    (load_of_not_ok _ _ _ _ rfl)
  exact hclean (.task 1) ⟨some 7, [100], ⟨⟨7, ⟨100, 0⟩⟩, rfl, rfl, rfl⟩, .inl rfl⟩

/-- So is a packet hook that was registered without a handle: it is nobody's, and calls into the library. -/
example : (load quietEnv "m" 7 (.exports ⟨[.api_packet_hook_register none 1 (some 100) 0], false, 5⟩)
    (.initial hookNames)).2.Left quietEnv 7 [.api_packet_hook_register none 1 (some 100) 0] (.packetSub 1) :=
  ⟨none, [100], ⟨⟨1, none, 1, ⟨100, 0⟩⟩, .head _, rfl, rfl, rfl⟩,
    .inr ⟨100, .head _, _, .head _, .head _⟩⟩

/-- The same mod taking its task back before it reports failure. -/
def scheduleAndCancel : LeviRsMain :=
  ⟨[.api_schedule_for (fun _ => true) (some 7) (some 100) 0, .api_schedule_cancel (some 7) 1], false, 5⟩

theorem failedLoad_clean_cancelled :
    (load quietEnv "m" 7 (.exports scheduleAndCancel) (.initial hookNames)).2.Clean quietEnv 7
        scheduleAndCancel.calls ↔
      AllWithdrawn quietEnv 7 scheduleAndCancel.calls ((State.initial hookNames).makeRustMod 7) :=
  failedLoad_clean_iff "m" scheduleAndCancel (wellFormed_initial _) (clean_initial _) (load_of_not_ok _ _ _ _ rfl)

end Loader
