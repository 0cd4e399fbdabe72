import LeviRsLoader.Dependents

/-!
# Mod control

The commands of `ModControl.cpp` that bring mods up and take them down: what
they read from disk, what they check, and the unloads and loads they attempt.
How one unload or load goes is `RustModManager`'s business and comes in as an
outcome.
-/
namespace ModControl

open Dependents

/-! ## Manifests on disk -/

inductive Json where
  | str (s : String)
  | bool (b : Bool)
  | arr (items : List Json)
  | obj (members : List (String × Json))
  | other

def Json.isObject : Json → Bool
  | .obj _ => true
  | _ => false

def Json.member (j : Json) (key : String) : Option Json :=
  match j with
  | .obj members => members.lookup key
  | _ => none

/-- `j.contains(key) && j[key].is_string()`, and then the string. -/
def Json.text (j : Json) (key : String) : Option String :=
  match j.member key with
  | some (.str s) => some s
  | _ => none

/-- The names that an array of dependencies declares, as objects or as plain strings. -/
def Json.declared (j : Json) : List String :=
  match j.member "dependencies" with
  | some (.arr items) => items.filterMap fun d =>
    match d.text "name", d with
    | some name, _ => some name
    | none, .str name => some name
    | none, _ => none
  | _ => []

/-- A `manifest.json`, once `readFile` and the JSON parser have been at it. -/
inductive File where
  | unreadable
  | malformed (what : String)
  | json (j : Json)

/-- The regular files `mods/<name>/manifest.json`. -/
abbrev Disk := String → Option File

structure Candidate where
  name : String
  entry : String := ""
  version : String := ""
  dependencies : List String := []
  reloadSafe : Bool := false
  problem : String := ""

def takeReloadSafe (j : Json) (c : Candidate) : Candidate :=
  match j.member "reload_safe" with
  | none => c
  | some (.bool b) => { c with reloadSafe := b }
  | some _ => { c with problem := "reload_safe 必须是 true/false" }

def checkName (dirName : String) (c : Candidate) : Candidate :=
  if c.name ≠ dirName then
    { c with problem := "manifest 里的 name (\"" ++ c.name ++ "\") 和目录名 (\"" ++ dirName ++ "\") 不一致" }
  else c

def parseCandidate (file : File) (dirName : String) : Candidate :=
  let c : Candidate := { name := dirName }
  match file with
  | .unreadable => { c with problem := "manifest.json 读不出来" }
  | .malformed what => { c with problem := "manifest.json 不是合法 JSON: " ++ what }
  | .json j =>
    if !j.isObject then { c with problem := "manifest.json 顶层不是对象" }
    else if j.text "type" ≠ some "rust" then { c with problem := "not-rust" }
    else
      let c := { c with name := (j.text "name").getD c.name }
      match j.text "entry" with
      | none => { c with problem := "manifest.json 缺少 entry" }
      | some entry =>
        let c := { c with entry := entry, version := (j.text "version").getD c.version }
        checkName dirName { takeReloadSafe j c with dependencies := j.declared }

def readCandidate (disk : Disk) (name : String) : Except String Candidate :=
  match disk name with
  | none => .error ("找不到 mods/" ++ name ++ "/manifest.json")
  | some file =>
    let c := parseCandidate file name
    if c.problem = "not-rust" then .error ("'" ++ name ++ "' 不是 rust 类型的 mod")
    else if c.problem ≠ "" then .error ("'" ++ name ++ "': " ++ c.problem)
    else .ok c

/-- `deserialize` is LeviLamina's reflection reader. -/
def readManifest (deserialize : Json → Except String Manifest) (disk : Disk) (name : String) :
    Except String Manifest :=
  match disk name with
  | none | some .unreadable => .error ("读不出 mods/" ++ name ++ "/manifest.json")
  | some (.malformed what) => .error ("manifest.json 解析失败: " ++ what)
  | some (.json j) => deserialize j

/-- What the reflection reader is relied on for: the members it fills in come
from the members of those names in the file. -/
structure Reflects (deserialize : Json → Except String Manifest) : Prop where
  name : ∀ j mf, deserialize j = .ok mf → j.text "name" = some mf.name
  dependencies : ∀ j mf, deserialize j = .ok mf → ∀ d ∈ mf.dependencies.getD [], d ∈ j.declared

/-! ## Loaded mods -/

structure State where
  /-- The mods of `RustModManager`; `none` while there is no manager. -/
  manager : Option (List Manifest)
  /-- The mods of all other managers. -/
  foreign : List Manifest

namespace State

def own (s : State) : List Manifest := s.manager.getD []

def loaded (s : State) : List Manifest := s.foreign ++ s.own

/-- `RustModManager::hasMod` -/
def hasMod (s : State) (name : String) : Bool := s.own.any fun mod => mod.name = name

def isRustMod (s : State) (name : String) : Bool := s.hasMod name

end State

/-- LeviLamina's registry, as it answers while the managers have what they
have. `/llr` goes past it: it is told of no load and no unload here. -/
structure ModManagerRegistry where
  mods : State → List Manifest
  hasMod : State → String → Bool

/-- What the registry is relied on for: it covers the other managers, native
mods included, and lists nothing that no manager has, or a mod unloaded here
could not be loaded again. A mod of ours that `/llr` loaded need not be in its
view. -/
structure ModManagerRegistry.Covers (registry : ModManagerRegistry) : Prop where
  foreign : ∀ s, s.foreign ⊆ registry.mods s
  loaded : ∀ s, registry.mods s ⊆ s.loaded
  hasMod : ∀ s name, registry.hasMod s name = true ↔ ∃ mod ∈ registry.mods s, mod.name = name

namespace State

def isLoadedAnywhere (registry : ModManagerRegistry) (s : State) (name : String) : Bool :=
  s.isRustMod name || registry.hasMod s name

def eraseMod (s : State) (name : String) : State :=
  { s with manager := s.manager.map fun mods => mods.filter fun mod => mod.name ≠ name }

def addMod (s : State) (mf : Manifest) : State :=
  { s with manager := s.manager.map fun mods => (mods.filter fun mod => mod.name ≠ mf.name) ++ [mf] }

/-- The answer of `dependentsOf`, which never fails to come. -/
def dependentsOf (registry : ModManagerRegistry) (orders : HashOrders) (s : State) (name : String) : List String :=
  (Dependents.dependentsOf orders (loadedDependencyMap (registry.mods s) s.own) name).get (by
    obtain ⟨r, hr, -⟩ := exists_dependentsOf orders (registry.mods s) s.own name
    rw [hr, Option.isSome_some])

end State

/-! ## Attempts and their outcomes -/

/-- How `controlLoad` ends. -/
inductive LoadResult where
  | loaded
  | failed (message : String)
  /-- `enable` failed, and the `unload` that was to undo `load` did as well. -/
  | leftBehind (message : String)
  deriving DecidableEq

/-- How `controlUnload` and `controlLoad` go during one command. -/
structure Outcomes where
  unload : String → Option String
  load : Manifest → LoadResult

inductive Event where
  | unload (name : String) (error : Option String)
  | load (manifest : Manifest) (result : LoadResult)
  deriving DecidableEq

def State.apply (s : State) : Event → State
  | .unload name none => s.eraseMod name
  | .unload _ (some _) => s
  | .load _ (.failed _) => s
  | .load mf .loaded => s.addMod mf
  | .load mf (.leftBehind _) => s.addMod mf

def State.after (s : State) (events : List Event) : State := events.foldl State.apply s

/-- The names taken down. -/
def unloaded (events : List Event) : List String :=
  events.filterMap fun
    | .unload name none => some name
    | _ => none

inductive Line where
  | success (text : String)
  | error (text : String)

/-- What a command prints and attempts, and whether it went through. -/
structure Report where
  ok : Bool
  output : List Line
  events : List Event

def refuse (output : List Line) : Report := ⟨false, output, []⟩

def commaSeparated (names : List String) : String := ", ".intercalate names

/-! ## The commands -/

section Commands

variable (deserialize : Json → Except String Manifest) (registry : ModManagerRegistry)

def cmdLoad (run : Outcomes) (disk : Disk) (s : State) (name : String) : Report :=
  if s.manager.isNone then refuse [.error "rust mod manager 还没就绪"]
  else if s.hasMod name then
    refuse [.error ("'" ++ name ++ "' 已经加载了。要换代码请先 /llr unload " ++ name)]
  else if s.isLoadedAnywhere registry name then
    refuse [.error ("'" ++ name ++ "' 已被别的 mod manager 加载，这里不接管")]
  else
    match readCandidate disk name with
    | .error what => refuse [.error what]
    | .ok cand =>
      let missing := cand.dependencies.filter fun d => !s.isLoadedAnywhere registry d
      if !missing.isEmpty then
        refuse [.error ("'" ++ name ++ "' 的依赖还没加载: " ++ commaSeparated missing)]
      else
        match readManifest deserialize disk name with
        | .error what => refuse [.error what]
        | .ok mf =>
          match run.load mf with
          | .loaded =>
            ⟨true, .success ("已加载并启用 '" ++ name ++ "'") ::
              if cand.reloadSafe then []
              else [.success ("提示：'" ++ name ++ "' 的 manifest 没写 \"reload_safe\": true，" ++
                "所以 /llr reload 对它不开放，只能 unload + load")], [.load mf .loaded]⟩
          | .failed what => ⟨false, [.error ("加载 '" ++ name ++ "' 失败: " ++ what)], [.load mf (.failed what)]⟩
          | .leftBehind what =>
            ⟨false, [.error ("加载 '" ++ name ++ "' 失败: " ++ what)], [.load mf (.leftBehind what)]⟩

/-- The loop of `doUnload`. -/
def unloadEach (run : Outcomes) : State → List String → Report
  | _, [] => ⟨true, [], []⟩
  | s, m :: order =>
    if !s.hasMod m then unloadEach run s order
    else
      match run.unload m with
      | some what =>
        ⟨false, [.error ("卸载 '" ++ m ++ "' 失败: " ++ what), .error "已经卸载的部分不会自动恢复，请检查服务器状态。"],
          [.unload m (some what)]⟩
      | none =>
        let r := unloadEach run (s.eraseMod m) order
        ⟨r.ok, .success ("已卸载 '" ++ m ++ "'") :: r.output, .unload m none :: r.events⟩

def doUnload (orders : HashOrders) (run : Outcomes) (s : State) (name : String) (cascade : Bool) : Report :=
  if !s.hasMod name then refuse [.error ("'" ++ name ++ "' 没有被加载（rust mod）")]
  else
    let dependents := s.dependentsOf registry orders name
    if !dependents.isEmpty && !cascade then
      refuse [.error ("拒绝卸载 '" ++ name ++ "'：还有 mod 依赖它 —— " ++
        commaSeparated (dependents.map fun d => if s.isRustMod d then d else d ++ "(C++)") ++
        "。确认要一起卸载就加 --cascade。")]
    else
      let foreign := dependents.filter fun d => !s.isRustMod d
      if !foreign.isEmpty then
        refuse [.error ("--cascade 也做不了：依赖方里有非 rust 的 mod（" ++ commaSeparated foreign ++
          "），本 loader 无权卸载它们。请先手动处理，或重启服务器。")]
      else unloadEach run s (dependents ++ [name])

def cmdUnload (orders : HashOrders) (run : Outcomes) (s : State) (name : String) (cascade : Bool) : Report :=
  let r := doUnload registry orders run s name cascade
  if r.ok then
    { r with output := r.output ++ [.success ("提示：要换成新编译的 dll，现在把文件替换掉，然后 /llr list 刷新列表，" ++
      "再 /llr load " ++ name)] }
  else r

/-- The loop of `cmdReload` that brings the mods back. -/
def loadEach (run : Outcomes) (disk : Disk) : List String → Report
  | [] => ⟨true, [], []⟩
  | m :: mods =>
    match readManifest deserialize disk m with
    | .error what => refuse [.error ("重新加载 '" ++ m ++ "' 失败: " ++ what)]
    | .ok mf =>
      match run.load mf with
      | .loaded =>
        let r := loadEach run disk mods
        ⟨r.ok, .success ("已重新加载 '" ++ m ++ "'") :: r.output, .load mf .loaded :: r.events⟩
      | .failed what => ⟨false, stuck m what, [.load mf (.failed what)]⟩
      | .leftBehind what => ⟨false, stuck m what, [.load mf (.leftBehind what)]⟩
where
  stuck (m what : String) : List Line :=
    [.error ("重新加载 '" ++ m ++ "' 失败: " ++ what),
      .error ("'" ++ m ++ "' 现在处于未加载状态，修好后用 /llr load " ++ m ++ " 拉起来。")]

/-- `dc && dc->reloadSafe` -/
def reloadSafe (disk : Disk) (name : String) : Bool :=
  match readCandidate disk name with
  | .ok c => c.reloadSafe
  | .error _ => false

/-- What `cmdReload` does with what `doUnload` reports. -/
def bringBack (run : Outcomes) (disk : Disk) (name : String) (down : Report) : Report :=
  if !down.ok then down
  else
    let up := loadEach deserialize run disk (unloaded down.events).reverse
    ⟨up.ok, down.output ++ up.output ++
      (if up.ok then [.success ("'" ++ name ++ "' reload 完成（状态已重置、配置已重读；dll 代码没有更换）")] else []),
      down.events ++ up.events⟩

/-- `checked` and `orders` are those of the two calls of `dependentsOf`. -/
def cmdReload (checked orders : HashOrders) (run : Outcomes) (disk : Disk) (s : State) (name : String)
    (cascade : Bool) : Report :=
  if !s.hasMod name then refuse [.error ("'" ++ name ++ "' 没有被加载（rust mod）")]
  else
    match readCandidate disk name with
    | .error what => refuse [.error what]
    | .ok cand =>
      if !cand.reloadSafe then
        refuse [.error ("'" ++ name ++ "' 没有在 manifest.json 里声明 \"reload_safe\": true，不允许 reload。"),
          .error ("reload 会重跑 levi_rs_main，mod 必须自己保证：on_unload 里 join 掉所有线程、" ++
            "关掉所有 handle、取消所有定时器（schedule_cancel），全局状态可重入。" ++
            "确认做到了再加这个字段。在那之前请用 /llr unload " ++ name ++ " 然后 /llr load " ++ name ++ "。")]
      else
        let unsafeDep := if cascade then
            (s.dependentsOf registry checked name).find? fun dep => s.isRustMod dep && !reloadSafe disk dep
          else none
        match unsafeDep with
        | some dep =>
          refuse [.error ("级联里的 '" ++ dep ++ "' 没有声明 \"reload_safe\": true，" ++
            "不能跟着一起 reload。请改用 /llr unload " ++ name ++ " --cascade 再逐个 load。")]
        | none => bringBack deserialize run disk name (doUnload registry orders run s name cascade)

end Commands

/-! ## What the files say -/

theorem checkName_good {dirName : String} {c : Candidate} (h : (checkName dirName c).problem = "") :
    c.name = dirName ∧ checkName dirName c = c := by
  unfold checkName at h ⊢
  split at h
  · simp at h
  · next hn => exact ⟨not_not.mp hn, if_neg hn⟩

@[simp] theorem takeReloadSafe_name (j : Json) (c : Candidate) : (takeReloadSafe j c).name = c.name := by
  unfold takeReloadSafe
  split <;> rfl

theorem takeReloadSafe_good {j : Json} {c : Candidate} (hc : c.reloadSafe = false)
    (h : (takeReloadSafe j c).problem = "") :
    (takeReloadSafe j c).reloadSafe = true ↔ j.member "reload_safe" = some (.bool true) := by
  unfold takeReloadSafe at h ⊢
  split at h
  · next hm => simp [hm, hc]
  · next b hm => simp [hm]
  · simp at h

/-- What a candidate without a problem says stands in the file. -/
theorem parseCandidate_good {file : File} {name : String} (h : (parseCandidate file name).problem = "") :
    ∃ j, file = .json j ∧ (∀ n, j.text "name" = some n → n = name) ∧
      (parseCandidate file name).dependencies = j.declared ∧
      ((parseCandidate file name).reloadSafe = true ↔ j.member "reload_safe" = some (.bool true)) := by
  unfold parseCandidate at h ⊢
  cases file with
  | unreadable => simp at h
  | malformed what => simp at h
  | json j =>
    dsimp only at h ⊢
    split at h
    · simp at h
    · next hobj =>
      rw [if_neg hobj]
      split at h
      · simp at h
      · next htype =>
        rw [if_neg htype]
        cases hentry : j.text "entry" with
        | none => simp [hentry] at h
        | some entry =>
          simp only [hentry] at h ⊢
          obtain ⟨hname, heq⟩ := checkName_good h
          rw [heq] at h ⊢
          refine ⟨j, rfl, fun n hn => ?_, rfl, takeReloadSafe_good rfl h⟩
          rw [takeReloadSafe_name, hn] at hname
          exact hname

theorem readCandidate_ok {disk : Disk} {name : String} {c : Candidate} (h : readCandidate disk name = .ok c) :
    ∃ j, disk name = some (.json j) ∧ (∀ n, j.text "name" = some n → n = name) ∧ c.dependencies = j.declared ∧
      (c.reloadSafe = true ↔ j.member "reload_safe" = some (.bool true)) := by
  unfold readCandidate at h
  split at h
  · cases h
  · next file hfile =>
    dsimp only at h
    split at h
    · cases h
    · split at h
      · cases h
      · next hp =>
        cases h
        obtain ⟨j, rfl, hj⟩ := parseCandidate_good (not_not.mp hp)
        exact ⟨j, hfile, hj⟩

/-- A file with a good candidate, read by reflection, gives a manifest of the
directory's name whose dependencies the candidate lists. -/
theorem Reflects.of_candidate {deserialize : Json → Except String Manifest} (hd : Reflects deserialize) {disk : Disk}
    {name : String} {c : Candidate} {mf : Manifest} (hc : readCandidate disk name = .ok c)
    (hm : readManifest deserialize disk name = .ok mf) :
    mf.name = name ∧ ∀ d ∈ mf.dependencies.getD [], d ∈ c.dependencies := by
  obtain ⟨j, hj, hname, hdeps, -⟩ := readCandidate_ok hc
  rw [readManifest, hj] at hm
  dsimp only at hm
  exact ⟨hname _ (hd.name j mf hm), fun d h => hdeps ▸ hd.dependencies j mf hm d h⟩

/-! ## Who is loaded -/

namespace State

theorem mem_loaded {s : State} {mod : Manifest} : mod ∈ s.loaded ↔ mod ∈ s.foreign ∨ mod ∈ s.own := List.mem_append

theorem hasMod_iff {s : State} {name : String} : s.hasMod name = true ↔ ∃ mod ∈ s.own, mod.name = name := by
  simp [hasMod]

theorem exists_loaded_iff {s : State} {name : String} :
    (∃ mod ∈ s.loaded, mod.name = name) ↔ (∃ mod ∈ s.foreign, mod.name = name) ∨ s.hasMod name = true := by
  simp only [mem_loaded, hasMod_iff, or_and_right, exists_or]

theorem isLoadedAnywhere_iff {registry : ModManagerRegistry} (hr : registry.Covers) {s : State} {name : String} :
    s.isLoadedAnywhere registry name = true ↔ ∃ mod ∈ s.loaded, mod.name = name := by
  rw [isLoadedAnywhere, isRustMod, Bool.or_eq_true, hasMod_iff, hr.hasMod]
  constructor
  · rintro (⟨mod, hm, h⟩ | ⟨mod, hm, h⟩)
    · exact ⟨mod, mem_loaded.mpr (.inr hm), h⟩
    · exact ⟨mod, hr.loaded s hm, h⟩
  · rintro ⟨mod, hm, h⟩
    rcases mem_loaded.mp hm with hm | hm
    · exact .inr ⟨mod, hr.foreign s hm, h⟩
    · exact .inl ⟨mod, hm, h⟩

theorem own_eraseMod (s : State) (name : String) : (s.eraseMod name).own = s.own.filter fun mod => mod.name ≠ name := by
  unfold own eraseMod
  cases s.manager <;> rfl

theorem own_addMod {s : State} (hs : s.manager.isSome) (mf : Manifest) :
    (s.addMod mf).own = (s.own.filter fun mod => mod.name ≠ mf.name) ++ [mf] := by
  unfold own addMod
  obtain ⟨mods, hm⟩ := Option.isSome_iff_exists.mp hs
  simp [hm]

theorem isSome_of_hasMod {s : State} {name : String} (h : s.hasMod name = true) : s.manager.isSome := by
  unfold hasMod own at h
  cases hm : s.manager with
  | none => simp [hm] at h
  | some mods => rfl

theorem hasMod_eraseMod {s : State} {name x : String} :
    (s.eraseMod name).hasMod x = true ↔ s.hasMod x = true ∧ x ≠ name := by
  rw [hasMod_iff, hasMod_iff, own_eraseMod]
  simp only [List.mem_filter, decide_eq_true_eq]
  constructor
  · rintro ⟨mod, ⟨hm, hne⟩, rfl⟩
    exact ⟨⟨mod, hm, rfl⟩, hne⟩
  · rintro ⟨⟨mod, hm, rfl⟩, hne⟩
    exact ⟨mod, ⟨hm, hne⟩, rfl⟩

theorem hasMod_addMod {s : State} (hs : s.manager.isSome) {mf : Manifest} {x : String} :
    (s.addMod mf).hasMod x = true ↔ s.hasMod x = true ∨ x = mf.name := by
  rw [hasMod_iff, hasMod_iff, own_addMod hs]
  simp only [List.mem_append, List.mem_filter, List.mem_singleton, decide_eq_true_eq]
  constructor
  · rintro ⟨mod, ⟨hm, -⟩ | rfl, rfl⟩
    · exact .inl ⟨mod, hm, rfl⟩
    · exact .inr rfl
  · rintro (⟨mod, hm, rfl⟩ | rfl)
    · by_cases h : mod.name = mf.name
      · exact ⟨mf, .inr rfl, h.symm⟩
      · exact ⟨mod, .inl ⟨hm, h⟩, rfl⟩
    · exact ⟨mf, .inr rfl, rfl⟩

@[simp] theorem after_nil (s : State) : s.after [] = s := rfl

@[simp] theorem after_cons (s : State) (e : Event) (events : List Event) :
    s.after (e :: events) = (s.apply e).after events := rfl

theorem after_append (s : State) (l l' : List Event) : s.after (l ++ l') = (s.after l).after l' := by
  rw [after, List.foldl_append]
  rfl

@[simp] theorem foreign_after (s : State) (events : List Event) : (s.after events).foreign = s.foreign := by
  induction events generalizing s with
  | nil => rfl
  | cons e events ih =>
    rw [after_cons, ih]
    cases e with
    | unload name error => cases error <;> rfl
    | load mf result => cases result <;> rfl

theorem dependentsOf_lists (registry : ModManagerRegistry) (orders : HashOrders) (s : State) (name : String) :
    Lists (registry.mods s ++ s.own) name (s.dependentsOf registry orders name) := by
  obtain ⟨r, hsome, h⟩ := exists_dependentsOf orders (registry.mods s) s.own name
  have heq : s.dependentsOf registry orders name = r := by
    unfold dependentsOf
    simp only [hsome, Option.get_some]
  rw [heq]
  exact h

end State

/-- What the registry and our manager list is what is loaded. -/
theorem ModManagerRegistry.Covers.depends {registry : ModManagerRegistry} (hr : registry.Covers) (s : State) :
    Depends (registry.mods s ++ s.own) = Depends s.loaded := by
  have hmem : ∀ mod, mod ∈ registry.mods s ++ s.own ↔ mod ∈ s.loaded := by
    intro mod
    rw [List.mem_append, State.mem_loaded]
    constructor
    · rintro (h | h)
      · exact State.mem_loaded.mp (hr.loaded s h)
      · exact .inr h
    · exact Or.imp_left fun h => hr.foreign s h
  funext m d
  simp only [Depends, hmem]

theorem ModManagerRegistry.Covers.lists {registry : ModManagerRegistry} (hr : registry.Covers) (orders : HashOrders)
    (s : State) (name : String) : Lists s.loaded name (s.dependentsOf registry orders name) :=
  (s.dependentsOf_lists registry orders name).congr (hr.depends s)

end ModControl
