import LeviRsLoader.CommandArguments

/-!
# Texts of the native side

Compounds that the native code puts together by hand, with quoted keys and numbers without a suffix,
as the parser of the Rust side reads them.
-/
namespace NativeTexts

open Nbt Nbt.Parser Utf8 HookPayload
open HookCancel (r)

variable {F : Floats}

def as_str : NbtValue → Option String
  | .string s => some s
  | _ => none

/-- A number printed without a suffix: an int or a long where it is one, and past the longs a text. -/
def number (v : Int) : NbtValue :=
  if -2147483648 ≤ v ∧ v ≤ 2147483647 then .int (Int32.ofInt v)
  else if -9223372036854775808 ≤ v ∧ v ≤ 9223372036854775807 then .long (Int64.ofInt v)
  else .string (String.ofList (Decimal.print v))

theorem parse_of_bounds {lo hi v : Int} (h : ¬(lo ≤ v ∧ v ≤ hi)) : Decimal.parse lo hi (Decimal.print v) = none := by
  rw [Decimal.parse, Decimal.parseInt_print, Option.filter_some, if_neg (by simpa using h)]

theorem tokenValue_number (v : Int) : tokenValue F (Decimal.print v) = number v := by
  have h := tokenValue_numeral (F := F) v [] (.inl rfl)
  rw [List.append_nil] at h
  rw [h, number]
  split_ifs with hint hlong
  · simp [numericOf, print_any_dot, parse_i32, Decimal.parse_print _ _ hint.1 hint.2]
  · simp [numericOf, print_any_dot, parse_i32, parse_i64, parse_of_bounds hint,
      Decimal.parse_print _ _ hlong.1 hlong.2]
  · simp [numericOf, print_any_dot, parse_i32, parse_i64, parse_of_bounds hint, parse_of_bounds hlong]

theorem reads_number (n : Nat) (v : Int) : ReadsText (value F (n + 1)) (Decimal.print v) (number v) := by
  rw [← tokenValue_number v]
  exact reads_token n (print_bare _) (Decimal.print_ne_nil _)

theorem reads_quoted (n : Nat) (s : String) : ReadsText (value F (n + 1)) (write_quoted s) (.string s) := by
  have h := reads_text (F := F) n s.toList
  rwa [String.ofList_toList] at h

/-- A text in braces parses as the compound of its entries, with fuel for what they nest. -/
theorem parse_braced (d : Nat) (e : Entry) (l : List Entry) (hd : d ≤ (bracedText (e :: l)).length)
    (hl : ∀ n, ∀ u ∈ e :: l, ReadsText (value F (n + d)) u.text u.value) :
    NbtValue.parse F (r (encode (bracedText (e :: l)))) = .ok (.compound (mapOf (e :: l))) := by
  have hlen : d ≤ (encode (bracedText (e :: l))).length := Nat.le_trans hd (length_le_encode _)
  obtain ⟨n, hn⟩ : ∃ n, (encode (bracedText (e :: l))).length = n + d := ⟨_, (Nat.sub_add_cancel hlen).symm⟩
  rw [r_encode]
  refine parse_of_reads (by simp [bracedText, isWsChar]) ?_
  rw [hn]
  exact reads_braced e l (hl n)

end NativeTexts
