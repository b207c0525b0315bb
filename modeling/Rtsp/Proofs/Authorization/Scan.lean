-- SUMMARY: A scan by offsets finds the fields between the commas.
import Mathlib.Data.String.Basic
import Rtsp.Authorization.Scan
import Rtsp.Proofs.Authorization.Fields

/-!
# Scanning without a fault

A scan keeps the offset at which the present field begins. All of its offsets are those of
characters, whatever the text, so no field is cut out in a wrong place (`Text.slice?_append`), and
the fields are those between the commas outside quotes (`Authorization.scanFields_eq`).
-/

namespace Rtsp

open Text

/-- A part is cut out by the bytes in front of it and the bytes up to its end. -/
theorem Text.slice?_append (before part after : List Char) :
    slice? (String.ofList (before ++ part ++ after)) (String.utf8Len before)
        (String.utf8Len (before ++ part))
      = some (String.ofList part) := by
  have hvalid (front back : List Char) :
      String.Pos.Raw.IsValid (String.ofList (front ++ back)) ⟨String.utf8Len front⟩ := by
    refine String.Pos.Raw.isValid_iff_exists_append.2
      ⟨String.ofList front, String.ofList back, String.ofList_append, ?_⟩
    rw [String.rawEndPos_ofList]
  have hstart := hvalid before (part ++ after)
  rw [← List.append_assoc, ← String.Pos.Raw.isValid_eq_true_iff] at hstart
  have hstop := hvalid (before ++ part) after
  rw [← String.Pos.Raw.isValid_eq_true_iff] at hstop
  have hle : String.utf8Len before ≤ String.utf8Len (before ++ part) := by
    rw [String.utf8Len_append]
    exact Nat.le_add_right _ _
  rw [slice?, if_pos ⟨hle, hstart, hstop⟩, String.utf8Len_append, String.extract_of_valid]

namespace Authorization

/-- A scan that has read the finished fields in `before`, and then `part`. -/
def Scan.behind (before part : List Char) (quoted : Bool) (fields : Params) : Scan :=
  ⟨String.utf8Len (before ++ part), String.utf8Len before, quoted, fields⟩

variable {text : String} {before part : List Char} {quoted : Bool} {fields : Params}

theorem Scan.finish_behind (h : text = String.ofList (before ++ part)) :
    (Scan.behind before part quoted fields).finish text = some (addField fields part) := by
  have hslice := slice?_append before part []
  rw [List.append_nil, ← h] at hslice
  have hsize : text.utf8ByteSize = String.utf8Len (before ++ part) := by
    rw [h, String.utf8ByteSize_ofList]
  unfold finish behind
  rw [hsize, hslice]
  simp

theorem Scan.step_comma {rest : List Char}
    (h : text = String.ofList (before ++ part ++ ',' :: rest)) :
    (Scan.behind before part false fields).step text ','
      = some (Scan.behind (before ++ part ++ [',']) [] false (addField fields part)) := by
  have hslice := slice?_append before part (',' :: rest)
  rw [← h] at hslice
  have hsize : String.utf8Len (before ++ part ++ [',']) = String.utf8Len (before ++ part) + 1 := by
    rw [String.utf8Len_append]
    rfl
  unfold step behind
  rw [if_pos (by simp), hslice, List.append_nil, hsize, Option.bind_eq_bind, Option.bind_some,
    String.toList_ofList]
  rfl

theorem Scan.step_plain {c : Char} (h : (c == ',' && !quoted) = false) :
    (Scan.behind before part quoted fields).step text c
      = some (Scan.behind before (part ++ [c]) (if c == '"' then !quoted else quoted) fields) := by
  have hsize : String.utf8Len (before ++ (part ++ [c]))
      = String.utf8Len (before ++ part) + c.utf8Size := by
    rw [← List.append_assoc, String.utf8Len_append, String.utf8Len_cons, String.utf8Len_nil,
      Nat.zero_add]
  unfold step behind
  rw [hsize]
  simp only [h, Bool.false_eq_true, if_false]

/-- From any place of a text on, the scan goes on to the fields that are left. -/
theorem Scan.foldlM_step {rest : List Char} (h : text = String.ofList (before ++ part ++ rest)) :
    (rest.foldlM (Scan.step text) (Scan.behind before part quoted fields)).bind (Scan.finish text)
      = some (((splitUnquoted.go quoted rest).modifyHead (part ++ ·)).foldl addField fields) := by
  induction rest generalizing before part quoted fields with
  | nil =>
    rw [List.append_nil] at h
    simp [finish_behind h, splitUnquoted.go]
  | cons c rest ih =>
    by_cases hcut : (c == ',' && !quoted) = true
    · obtain ⟨rfl, rfl⟩ : c = ',' ∧ quoted = false := by simpa using hcut
      have hnext : text = String.ofList (before ++ part ++ [','] ++ [] ++ rest) := by simp [h]
      have hid : (splitUnquoted.go false rest).modifyHead ([] ++ ·) = splitUnquoted.go false rest :=
        congrFun List.modifyHead_id _
      rw [List.foldlM_cons, step_comma h, Option.bind_eq_bind, Option.bind_some, ih hnext, hid,
        splitUnquoted_go_comma, List.modifyHead_cons, List.append_nil, List.foldl_cons]
    · rw [Bool.not_eq_true] at hcut
      have hnext : text = String.ofList (before ++ (part ++ [c]) ++ rest) := by simp [h]
      rw [List.foldlM_cons, step_plain hcut, Option.bind_eq_bind, Option.bind_some, ih hnext,
        splitUnquoted_go_cons hcut, List.modifyHead_modifyHead]
      simp [Function.comp_def]

/-- No text makes a fault, and the fields are those between the commas outside quotes. -/
theorem scanFields_eq (text : String) : scanFields text = some (readFields text.toList) := by
  have h : text = String.ofList ([] ++ [] ++ text.toList) := by simp
  have hid : (splitUnquoted.go false text.toList).modifyHead ([] ++ ·)
      = splitUnquoted.go false text.toList := congrFun List.modifyHead_id _
  have hscan : scanFields text
      = some (((splitUnquoted.go false text.toList).modifyHead ([] ++ ·)).foldl addField {}) :=
    Scan.foldlM_step h
  rw [hscan, hid]
  rfl

/-- A comma and an equals sign in quotes, and blanks of one and of three bytes. -/
example : scanFields "realm=\"a, b=c\", nonce=xyz\u3000, QOP=\"auth,auth-int\""
    = some ⟨[("realm", "a, b=c"), ("nonce", "xyz"), ("qop", "auth,auth-int")]⟩ := by
  decide +kernel

end Authorization
end Rtsp
