import Mathlib.Data.List.Basic
import Mathlib.Data.List.Infix

/-!
# Lexical Windows paths

A path is its text. A root-name (a drive, a device prefix or a server) and a
root-directory (a separator after it) are read off the front, the file names
are the non-empty pieces between separators, and `append` is `operator/`.
Everything here is lexical: no file system is consulted.
-/
namespace WinPath

abbrev Text := List Char

def isSlash (c : Char) : Bool := c == '\\' || c == '/'

def startsWithSlash (t : Text) : Bool := t.head?.any isSlash

/-- `\\?\`, `\\.\` and `\??\`, not followed by a further separator. -/
def isDevicePrefix : Text → Bool
  | _ :: b :: c :: d :: t =>
    isSlash d && !startsWithSlash t && ((isSlash b && (c == '?' || c == '.')) || (b == '?' && c == '?'))
  | _ => false

/-- The length of the root-name: `X:`, a device prefix, `\\server`, or nothing. -/
def rootNameLength : Text → Nat
  | a :: b :: t =>
    if a.isAlpha && b == ':' then 2
    else if !isSlash a then 0
    else if isDevicePrefix (a :: b :: t) then 3
    else if !isSlash b || t.isEmpty || startsWithSlash t then 0
    else 3 + (t.tail.takeWhile (!isSlash ·)).length
  | _ => 0

def rootName (t : Text) : Text := t.take (rootNameLength t)

/-- Everything after the root-name: the root-directory, if any, and the relative path. -/
def relText (t : Text) : Text := t.drop (rootNameLength t)

def hasRootDirectory (t : Text) : Bool := startsWithSlash (relText t)

/-- Both a root-name and a root-directory are needed. -/
def isAbsolute (t : Text) : Bool := !(rootName t).isEmpty && hasRootDirectory t

/-- The non-empty pieces of a text between separators. -/
def fileNames (rel : Text) : List Text := (rel.splitOnP isSlash).filter (!·.isEmpty)

/-- The file names of a path, in order. -/
def names (t : Text) : List Text := fileNames (relText t)

def endsWithSlash (t : Text) : Bool := t.getLast?.any isSlash

/-- What iteration over a path visits: root-name, root-directory, the file
names, and an empty element after a trailing separator. -/
def elements (t : Text) : List Text :=
  (if rootName t = [] then [] else [rootName t]) ++
  (if hasRootDirectory t then [(relText t).takeWhile isSlash] else []) ++ names t ++
  (if names t ≠ [] ∧ endsWithSlash t then [[]] else [])

/-- `a / b`: an absolute `b`, or one with another root-name, replaces `a`; a
root-directory in `b` drops the relative part of `a`; otherwise the texts are
joined with a separator where one is missing. -/
def append (a b : Text) : Text :=
  if isAbsolute b || (!(rootName b).isEmpty && rootName a != rootName b) then b
  else if hasRootDirectory b then rootName a ++ relText b
  else if relText a = [] then
    (if 3 ≤ rootNameLength a then a ++ ['\\'] else a) ++ relText b
  else (if endsWithSlash a then a else a ++ ['\\']) ++ relText b

def dotdot : Text := ['.', '.']

/-- `r` lies lexically inside `d`: the same root, and the names of `d` first,
followed by names that do not climb back out. -/
def Inside (d r : Text) : Prop :=
  rootName r = rootName d ∧ hasRootDirectory r = true ∧ ∃ rest, names r = names d ++ rest ∧ dotdot ∉ rest

/-! ## Root-names -/

theorem rootName_append_relText (t : Text) : rootName t ++ relText t = t := List.take_append_drop _ t

theorem startsWithSlash_append {a : Text} (h : a ≠ []) (x : Text) :
    startsWithSlash (a ++ x) = startsWithSlash a := by
  cases a with
  | nil => exact absurd rfl h
  | cons c a => rfl

theorem isDevicePrefix_append {a x : Text} (h₄ : 4 ≤ a.length)
    (h : 5 ≤ a.length ∨ startsWithSlash x = false) : isDevicePrefix (a ++ x) = isDevicePrefix a := by
  match a with
  | [] | [_] | [_, _] | [_, _, _] => simp at h₄
  | [b, c, d, e] =>
    have hx : startsWithSlash x = false := by simpa using h
    simp [isDevicePrefix, hx, show startsWithSlash [] = false from rfl]
  | b :: c :: d :: e :: f :: a => simp [isDevicePrefix, startsWithSlash]

theorem rootNameLength_le (t : Text) : rootNameLength t ≤ t.length := by
  match t with
  | [] | [_] => simp [rootNameLength]
  | a :: b :: t =>
    have htw := (List.takeWhile_prefix (fun c => !isSlash c) (l := t.tail)).length_le
    simp only [rootNameLength]
    split_ifs with _ _ hd ht
    · simp
    · simp
    · match t with
      | [] | [_] => simp [isDevicePrefix] at hd
      | _ :: _ :: t => simp
    · simp
    · cases t with
      | nil => simp at ht
      | cons c t => simp only [List.tail_cons, List.length_cons] at htw ⊢; omega

theorem length_relText (t : Text) : (relText t).length = t.length - rootNameLength t := by
  simp [relText]

/-- Text added after the root-directory leaves the root-name alone, unless it
turns a device prefix into something else by doubling its separator. -/
theorem rootNameLength_append {a x : Text} (hn : rootNameLength a ≠ 0) (hd : hasRootDirectory a = true)
    (hx : 2 ≤ (relText a).length ∨ startsWithSlash x = false) :
    rootNameLength (a ++ x) = rootNameLength a := by
  have hrel : 1 ≤ (relText a).length := by
    cases h : relText a with
    | nil => simp [hasRootDirectory, h, startsWithSlash] at hd
    | cons c r => simp
  rw [length_relText] at hx hrel
  match a with
  | [] | [_] => simp [rootNameLength] at hn
  | b :: c :: t =>
    simp only [List.cons_append]
    by_cases hdrive : (b.isAlpha && c == ':') = true
    · simp [rootNameLength, hdrive]
    · by_cases hb : isSlash b = true
      · have hge : 3 ≤ rootNameLength (b :: c :: t) := by
          simp only [rootNameLength, hdrive, hb] at hn ⊢
          split_ifs at hn ⊢ <;> simp_all
        have hdev : isDevicePrefix (b :: c :: (t ++ x)) = isDevicePrefix (b :: c :: t) := by
          apply isDevicePrefix_append (a := b :: c :: t)
          · omega
          · rcases hx with hx | hx
            · exact .inl (by omega)
            · exact .inr hx
        by_cases hdv : isDevicePrefix (b :: c :: t) = true
        · simp [rootNameLength, hdrive, hb, hdev, hdv]
        · -- a server name: it ends inside `t`, at the root-directory
          have ht : t ≠ [] := by
            rintro rfl
            simp [rootNameLength, hdrive, hb, hdv] at hn
          obtain ⟨d, t, rfl⟩ := List.exists_cons_of_ne_nil ht
          by_cases hs : (!isSlash c || startsWithSlash (d :: t)) = true
          · have : rootNameLength (b :: c :: d :: t) = 0 := by
              simp only [rootNameLength, hdrive, hb, hdv]
              simp_all [Decidable.imp_iff_not_or]
            exact absurd this hn
          · have hlen : rootNameLength (b :: c :: d :: t) = 3 + (t.takeWhile (!isSlash ·)).length := by
              simp only [rootNameLength, hdrive, hb, hdv]
              simp_all
            have htw : (t.takeWhile (!isSlash ·)).length ≠ t.length := by
              rw [hlen] at hrel
              simp only [List.length_cons] at hrel
              omega
            have hlen' : rootNameLength (b :: c :: (d :: t ++ x)) =
                3 + ((t ++ x).takeWhile (!isSlash ·)).length := by
              have hs' : startsWithSlash (d :: t ++ x) = startsWithSlash (d :: t) := rfl
              simp only [rootNameLength, hdrive, hb, hdev, hdv, hs']
              simp_all
            rw [hlen', hlen, List.takeWhile_append, if_neg htw]
      · simp [rootNameLength, hdrive, hb] at hn

theorem rootName_append {a x : Text} (h : rootNameLength (a ++ x) = rootNameLength a) :
    rootName (a ++ x) = rootName a := by
  rw [rootName, h, rootName, List.take_append_of_le_length (rootNameLength_le a)]

theorem relText_append {a x : Text} (h : rootNameLength (a ++ x) = rootNameLength a) :
    relText (a ++ x) = relText a ++ x := by
  rw [relText, h, relText, List.drop_append_of_le_length (rootNameLength_le a)]

/-! ## File names -/

theorem fileNames_append {a : Text} {s : Char} (hs : isSlash s = true) (x : Text) :
    fileNames (a ++ s :: x) = fileNames a ++ fileNames x := by
  simp [fileNames, List.splitOnP_append_cons _ _ hs]

@[simp] theorem fileNames_nil : fileNames [] = [] := rfl

theorem fileNames_append_slash {a : Text} {s : Char} (hs : isSlash s = true) :
    fileNames (a ++ [s]) = fileNames a := by
  simp [fileNames_append hs]

theorem dotdot_mem_elements {t : Text} (h : dotdot ∈ names t) : dotdot ∈ elements t := by
  simp [elements, h]

/-! ## Absolute directories -/

theorem isAbsolute_iff (t : Text) : isAbsolute t = true ↔ rootName t ≠ [] ∧ hasRootDirectory t = true := by
  simp [isAbsolute]

theorem rootNameLength_ne_zero {t : Text} (h : rootName t ≠ []) : rootNameLength t ≠ 0 := by
  intro h0
  exact h (by simp [rootName, h0])

/-- Joining a relative text to an absolute directory stays inside it: the root
is kept and the new names come after the directory's. -/
theorem append_relative {d b : Text} (hd : isAbsolute d = true) (hb : hasRootDirectory b = false)
    (hr : rootName b = [] ∨ rootName b = rootName d) :
    rootName (append d b) = rootName d ∧ hasRootDirectory (append d b) = true ∧
      names (append d b) = names d ++ names b := by
  obtain ⟨hn, hdir⟩ := (isAbsolute_iff d).mp hd
  have hn0 := rootNameLength_ne_zero hn
  have hne : relText d ≠ [] := by
    intro h
    simp [hasRootDirectory, h, startsWithSlash] at hdir
  have hcond : (isAbsolute b || (!(rootName b).isEmpty && rootName d != rootName b)) = false := by
    rcases hr with hr | hr <;> simp [isAbsolute, hb, hr]
  have happ : append d b = (if endsWithSlash d then d else d ++ ['\\']) ++ relText b := by
    rw [append, hcond]
    simp [hb, hne]
  -- the last character of `d` is the last one of its relative text
  obtain ⟨r, c, hrc⟩ : ∃ r c, relText d = r ++ [c] :=
    ⟨_, _, (List.dropLast_append_getLast hne).symm⟩
  have hlast : endsWithSlash d = isSlash c := by
    rw [endsWithSlash, ← rootName_append_relText d, hrc, ← List.append_assoc]
    simp
  by_cases hc : isSlash c = true
  · have hlen := rootNameLength_append (x := relText b) hn0 hdir (.inr hb)
    rw [happ, hlast, if_pos hc]
    refine ⟨rootName_append hlen, ?_, ?_⟩
    · rw [hasRootDirectory, relText_append hlen, startsWithSlash_append hne]
      exact hdir
    · rw [names, names, names, relText_append hlen, hrc, List.append_assoc, List.singleton_append,
        fileNames_append hc, fileNames_append_slash hc]
  · have h2 : 2 ≤ (relText d).length := by
      cases r with
      | nil =>
        rw [hasRootDirectory, hrc] at hdir
        exact absurd (by simpa [startsWithSlash] using hdir) hc
      | cons e r => simp [hrc]
    have hlen := rootNameLength_append (x := '\\' :: relText b) hn0 hdir (.inl h2)
    rw [happ, hlast, if_neg hc, List.append_assoc, List.singleton_append]
    refine ⟨rootName_append hlen, ?_, ?_⟩
    · rw [hasRootDirectory, relText_append hlen, startsWithSlash_append hne]
      exact hdir
    · rw [names, names, names, relText_append hlen, fileNames_append (by decide)]

end WinPath
