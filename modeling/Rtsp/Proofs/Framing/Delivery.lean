-- SUMMARY: A request is one unit for its reader, also where its start line is too long.
import Rtsp.Proofs.Framing.RoundTrip
import Mathlib.Data.List.Forall2

/-!
# Delivery

A line that is too long is dropped whole. Where that is the start line of a request without a body,
the first field is read in its place, and the others as the headers, so the request still is one
unit (`Chunk.exists_isWire_request`). A stream of messages is thus delivered with as many units,
whatever became of each (`Chunk.run_flatten`).
-/

namespace Rtsp

open Text

/-- The line after one that is too long is read. -/
theorem Line.read_overlong {s : String} (h : '\n' ∉ s.toList)
    (hlength : limit < (Utf8.encode (s ++ "\r\n")).length) (ended : Bool) (rest : Bytes) :
    read ended (Utf8.encode (s ++ "\r\n") ++ rest) = read ended rest := by
  have hline : Utf8.encode (s ++ "\r\n") ++ rest
      = (Utf8.encode s ++ [carriageReturn]) ++ lineFeed :: rest := by
    simp [encode_crlf]
  have hne : lineFeed ≠ carriageReturn := by decide
  have hfeed : lineFeed ∉ Utf8.encode s ++ [carriageReturn] := by
    simp [lineFeed_not_mem_encode h, hne]
  have hlong : limit ≤ (Utf8.encode s ++ [carriageReturn]).length := by
    simp only [Utf8.encode_append, encode_crlf, List.length_append, List.length_cons,
      List.length_nil] at hlength ⊢
    omega
  rw [hline, read_cons_of_long hfeed hlong]

theorem Headers.contentLength?_of_written {h : Headers} {e : String × String}
    {fields : List (String × String)} (hwritten : h.written = e :: fields) :
    contentLength? ⟨fields⟩ = some 0 := by
  have hnone : fields.find? (fun f => sameIgnoringCase f.1 "Content-Length") = none := by
    refine List.find?_eq_none.2 fun f hf => ?_
    have hmem : f ∈ h.written := hwritten ▸ List.mem_cons_of_mem e hf
    simpa [isLength] using (List.mem_filter.1 hmem).2
  unfold contentLength? get?
  rw [hnone]
  rfl

theorem Headers.not_blank_fieldLine {e : String × String} (h : IsField e) :
    (fieldLine e).toList.all isBlank = false := by
  have htrim : trim e.1.toList ≠ [] := by
    rw [h.name_trimmed]
    exact h.name_ne_nil
  obtain ⟨c, hc, hblank⟩ := (isFramed_trim htrim).first
  rw [h.name_trimmed] at hc
  have hmem : c ∈ (fieldLine e).toList := by
    rw [toList_fieldLine]
    exact List.mem_append_left _ (List.mem_of_head? hc)
  exact List.all_eq_false.2 ⟨c, hmem, by simp [hblank]⟩

namespace Chunk

/-- The bytes are read as this unit, whatever follows them. -/
def IsWire (bytes : Bytes) (unit : Chunk) : Prop :=
  ∀ rest, read true (bytes ++ rest) = .chunk unit rest

theorem IsWire.unique {bytes : Bytes} {unit unit' : Chunk} (h : IsWire bytes unit)
    (h' : IsWire bytes unit') : unit = unit' :=
  (Outcome.chunk.inj ((h []).symm.trans (h' []))).1

/-- Units that are written one after the other are delivered one by one. -/
theorem run_flatten {wires : List Bytes} {units : List Chunk}
    (h : List.Forall₂ IsWire wires units) : run true wires.flatten = ⟨units, .finished, []⟩ := by
  induction h with
  | nil => exact run_nil
  | cons hfirst _ ih => rw [List.flatten_cons, run_of_chunk (hfirst _), ih]

theorem exists_units {wires : List Bytes} (h : ∀ wire ∈ wires, ∃ unit, IsWire wire unit) :
    ∃ units, List.Forall₂ IsWire wires units := by
  induction wires with
  | nil => exact ⟨[], .nil⟩
  | cons wire wires ih =>
    obtain ⟨unit, hunit⟩ := h wire List.mem_cons_self
    obtain ⟨units, hunits⟩ := ih fun wire hwire => h wire (List.mem_cons_of_mem _ hwire)
    exact ⟨unit :: units, .cons hunit hunits⟩

/-- A stream of units is delivered up to its end, and each of them in its place. -/
theorem exists_run_flatten {wires : List Bytes} (h : ∀ wire ∈ wires, ∃ unit, IsWire wire unit) :
    ∃ units, run true wires.flatten = ⟨units, .finished, []⟩ ∧ units.length = wires.length
      ∧ ∀ before wire after unit, wires = before ++ wire :: after → IsWire wire unit →
        units[before.length]? = some unit := by
  obtain ⟨units, hunits⟩ := exists_units h
  refine ⟨units, run_flatten hunits, hunits.length_eq.symm, ?_⟩
  rintro before wire after unit rfl hwire
  have hrest := List.forall₂_drop_append _ _ _ hunits.flip
  cases hdrop : units.drop before.length with
  | nil =>
    rw [hdrop] at hrest
    cases hrest
  | cons unit' later =>
    rw [hdrop] at hrest
    obtain rfl : unit' = unit := IsWire.unique (List.forall₂_cons.1 hrest).1 hwire
    rw [← Nat.add_zero before.length, ← List.getElem?_drop, hdrop]
    rfl

/-- Where the start line is too long, the first field is read in its place. -/
theorem isWire_of_overlong {r : Request} (hstart : r.startLine.WellFormed)
    (hheaders : r.headers.WellFormed) (hbody : r.body = []) {e : String × String}
    {fields : List (String × String)} (hwritten : r.headers.written = e :: fields)
    (hlong : Line.limit < (Utf8.encode (r.startLine.text ++ "\r\n")).length) :
    IsWire r.encode (.message (.ofParts (Headers.fieldLine e) ⟨fields⟩ [])) := by
  intro rest
  have hmem : ∀ f ∈ e :: fields, f ∈ r.headers.written := fun f hf => hwritten ▸ hf
  have hfield : ∀ f ∈ e :: fields, Headers.IsField f := fun f hf =>
    hheaders.fields f (List.mem_filter.1 (hmem f hf)).1
  have hfits : ∀ f ∈ e :: fields, (Headers.encodeEntry f).length ≤ Line.limit :=
    fun f hf => hheaders.fits f (hmem f hf)
  have hdistinct : Headers.Distinct ([] ++ fields) := by
    have hwhole : Headers.Distinct r.headers.written := hheaders.distinct.filter _
    rw [hwritten] at hwhole
    exact (List.pairwise_cons.1 hwhole).2
  have hbytes : r.encode ++ rest = Utf8.encode (r.startLine.text ++ "\r\n")
      ++ (Headers.encodeEntry e
        ++ (fields.flatMap Headers.encodeEntry ++ (Utf8.encode "\r\n" ++ rest))) := by
    simp [Request.encode, encodeParts, Headers.encodeRest_eq, hbody, Headers.received,
      Headers.lengthField, hwritten]
  have hmarker : (r.encode ++ rest).head? ≠ some Interleaved.marker := by
    obtain ⟨c, hc, -⟩ := StartLine.exists_not_blank_text hstart
    rw [hbytes, Utf8.encode_append, List.append_assoc]
    exact head?_encode_ne_marker (StartLine.head?_text_ne_dollar hstart) (List.ne_nil_of_mem hc) _
  have hline : Line.read true (r.encode ++ rest) = .done (Headers.fieldLine e)
      (fields.flatMap Headers.encodeEntry ++ (Utf8.encode "\r\n" ++ rest)) := by
    rw [hbytes, Line.read_overlong (StartLine.lineFeed_not_mem_text hstart) hlong,
      Headers.encodeEntry_eq]
    exact Line.read_encode (Headers.lineFeed_not_mem_fieldLine (hfield e List.mem_cons_self))
      (hfits e List.mem_cons_self) true _
  have hread := Headers.read_encode (fun f hf => hfield f (List.mem_cons_of_mem e hf))
    (fun f hf => hfits f (List.mem_cons_of_mem e hf)) hdistinct true rest
  have hlength := Headers.contentLength?_of_written hwritten
  exact read_message hmarker hline (Headers.not_blank_fieldLine (hfield e List.mem_cons_self))
    hread (by rw [hlength]; rfl) (by rw [hlength]; exact Nat.zero_le _)

/-- A request without a body is one unit. It is the request itself if the start line fits. -/
theorem exists_isWire_request {r : Request} (hstart : r.startLine.WellFormed)
    (hheaders : r.headers.WellFormed) (hbody : r.body = []) (hne : r.headers.written ≠ []) :
    ∃ unit, IsWire r.encode unit
      ∧ ((Utf8.encode (r.startLine.text ++ "\r\n")).length ≤ Line.limit →
        unit = .message (Message.request r).received) := by
  by_cases hfits : (Utf8.encode (r.startLine.text ++ "\r\n")).length ≤ Line.limit
  · have hbody_le : r.body.length ≤ bodyLimit := by
      rw [hbody]
      exact Nat.zero_le _
    have hwell : (Message.request r).WellFormed := ⟨hstart, hheaders, hfits, hbody_le⟩
    exact ⟨_, read_encode_message hwell true, fun _ => rfl⟩
  · obtain ⟨e, fields, hwritten⟩ := List.exists_cons_of_ne_nil hne
    exact ⟨_, isWire_of_overlong hstart hheaders hbody hwritten (Nat.not_le.1 hfits),
      fun h => absurd h hfits⟩

end Chunk
end Rtsp
