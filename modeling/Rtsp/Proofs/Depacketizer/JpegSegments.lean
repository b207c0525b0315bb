-- SUMMARY: The header of a JPEG image is a well-formed sequence of marker segments.
import Mathlib.Algebra.GroupWithZero.Nat
import Mathlib.Data.List.Induction
import Rtsp.Proofs.Depacketizer.JpegImage

/-!
# Walking a header

A reader of images knows nothing of how a header was put together: it goes from marker to marker by
the lengths that it finds (`walk?`). It reads the segments of the header (`walk?_header`), which are
those of the parameters and the tables (`IsHeaderOf`), and ends where the scan begins. The lengths
have two bytes, which is enough for every table that a stream can send (`length_inForce_le`).
-/

namespace Rtsp.Jpeg

/-! ## Segments -/

/-- A marker segment without its length. -/
structure Segment where
  marker : UInt8
  body : Bytes
  deriving DecidableEq, Repr

namespace Segment

/-- The segment at the front. Its length counts the two bytes of the length itself. -/
def read? : Bytes → Option (Segment × Bytes)
  | 0xFF :: marker :: n1 :: n0 :: rest =>
    let size := (ofBe16 n1 n0).toNat
    if 2 ≤ size ∧ size - 2 ≤ rest.length then
      some (⟨marker, rest.take (size - 2)⟩, rest.drop (size - 2))
    else none
  | _ => none

theorem length_lt_of_read? {bytes rest : Bytes} {s : Segment} (h : read? bytes = some (s, rest)) :
    rest.length < bytes.length := by
  unfold read? at h
  split at h
  next =>
    dsimp only at h
    split at h
    next =>
      obtain ⟨-, rfl⟩ := Prod.mk.inj (Option.some.inj h)
      simp only [List.length_drop, List.length_cons]
      omega
    next => cases h
  next => cases h

def bytes (s : Segment) : Bytes :=
  segment s.marker s.body

/-- The length of a segment is read as it was written, if it fits into two bytes. -/
theorem read?_bytes {s : Segment} (h : s.body.length + 2 < 2 ^ 16) (rest : Bytes) :
    read? (s.bytes ++ rest) = some (s, rest) := by
  have hsize : s.body.length + 2 ≤ 65535 := by omega
  have hfits : 2 ≤ s.body.length + 2 ∧ s.body.length ≤ (s.body ++ rest).length := by simp
  unfold bytes segment
  simp only [be16, List.cons_append, List.nil_append, read?, toNat_ofBe16_be16 hsize,
    Nat.add_sub_cancel]
  rw [if_pos hfits, List.take_left, List.drop_left]

end Segment

/-- The segments up to the start of the scan, and what follows. -/
def readSegments? (bytes : Bytes) : Option (List Segment × Bytes) :=
  match _h : Segment.read? bytes with
  | none => none
  | some (s, rest) =>
    if s.marker = 0xDA then some ([s], rest)
    else (readSegments? rest).map fun (segments, scan) => (s :: segments, scan)
termination_by bytes.length
decreasing_by exact Segment.length_lt_of_read? _h

/-- The segments of an image behind its first marker, and its scan. -/
def walk? : Bytes → Option (List Segment × Bytes)
  | 0xFF :: 0xD8 :: rest => readSegments? rest
  | _ => none

theorem readSegments?_of_read? {bytes rest : Bytes} {s : Segment}
    (h : Segment.read? bytes = some (s, rest)) :
    readSegments? bytes = if s.marker = 0xDA then some ([s], rest)
      else (readSegments? rest).map fun (segments, scan) => (s :: segments, scan) := by
  rw [readSegments?]
  split
  next hnone => cases h.symm.trans hnone
  next hsome =>
    obtain ⟨rfl, rfl⟩ := Prod.mk.inj (Option.some.inj (h.symm.trans hsome))
    rfl

theorem readSegments?_append {segments : List Segment} {last : Segment}
    (hfits : ∀ s ∈ segments ++ [last], s.body.length + 2 < 2 ^ 16)
    (hbefore : ∀ s ∈ segments, s.marker ≠ 0xDA) (hlast : last.marker = 0xDA) (scan : Bytes) :
    readSegments? ((segments ++ [last]).flatMap Segment.bytes ++ scan)
      = some (segments ++ [last], scan) := by
  induction segments with
  | nil =>
    have hread := Segment.read?_bytes (hfits last (by simp)) scan
    rw [List.nil_append, List.flatMap_singleton, readSegments?_of_read? hread, if_pos hlast]
  | cons s segments ih =>
    have hrest := ih (fun t ht => hfits t (List.mem_cons_of_mem _ ht))
      fun t ht => hbefore t (List.mem_cons_of_mem _ ht)
    have hread := Segment.read?_bytes (hfits s List.mem_cons_self)
      ((segments ++ [last]).flatMap Segment.bytes ++ scan)
    rw [List.cons_append, List.flatMap_cons, List.append_assoc, readSegments?_of_read? hread,
      if_neg (hbefore s List.mem_cons_self), hrest]
    rfl

/-! ## What a header says -/

/-- How many tables there are. The first one has 64 entries, of two bytes each if bit 0 of the
precision is set. -/
def Quantization.count (q : Quantization) : Nat :=
  if q.table.length ≤ (if q.precision.toNat % 2 = 1 then 128 else 64) then 1 else 2

/-- What the segments with a marker hold. -/
def bodies (marker : UInt8) (segments : List Segment) : List Bytes :=
  (segments.filter (·.marker = marker)).map (·.body)

/-- The segments of a header for these parameters and tables. -/
structure IsHeaderOf (segments : List Segment) (p : Params) (q : Quantization) : Prop where
  markers : segments.map (·.marker)
    = 0xE0 :: ((if p.restartInterval = 0 then [] else [0xDD])
      ++ (List.replicate q.count 0xDB ++ [0xC0, 0xC4, 0xC4, 0xC4, 0xC4, 0xDA]))
  restart : bodies 0xDD segments
    = if p.restartInterval = 0 then [] else [be16 p.restartInterval]
  /-- Each table is behind its number and its bit of the precision. -/
  tables : ∃ tables : List Bytes, tables.length = q.count ∧ tables.flatten = q.table
    ∧ bodies 0xDB segments = tables.mapIdx fun id table =>
      UInt8.ofNat (q.precision.toNat / 2 ^ id % 2 * 16 + id) :: table
  /-- Entries of eight bits, the size, and three components: luma with the first table, and both
  chroma components with the last one. -/
  frame : bodies 0xC0 segments
    = [[8] ++ be16 p.height ++ be16 p.width ++ [3]
      ++ [1, if p.type.toNat % 2 = 0 then 0x21 else 0x22, 0]
      ++ [2, 0x11, if q.count = 2 then 1 else 0] ++ [3, 0x11, if q.count = 2 then 1 else 0]]
  /-- DC and AC codes for luma, then for chroma. -/
  huffmanIds : (bodies 0xC4 segments).map List.head? = [some 0x00, some 0x10, some 0x01, some 0x11]
  huffman : ∀ body ∈ bodies 0xC4 segments, ∃ (id : UInt8) (lengths symbols : Bytes),
    body = id :: (lengths ++ symbols) ∧ lengths.length = 16
      ∧ (lengths.map (·.toNat)).sum = symbols.length
  fits : ∀ s ∈ segments, s.body.length + 2 < 2 ^ 16

/-! ## The header that is written -/

namespace Quantization

variable (q : Quantization)

/-- The tables, of which the second one is left out if it is empty. -/
def tables : List Bytes :=
  q.split.1 :: if q.split.2.isEmpty then [] else [q.split.2]

/-- A table behind its number and its bit of the precision. -/
def tableSegment (id : Nat) (table : Bytes) : Segment :=
  ⟨0xDB, UInt8.ofNat (q.precision.toNat / 2 ^ id % 2 * 16 + id) :: table⟩

theorem split_append : q.split.1 ++ q.split.2 = q.table :=
  List.take_append_drop _ _

/-- There is one table, which is all there is, or there are two. -/
theorem tables_cases :
    q.count = 1 ∧ q.chromaTable = 0 ∧ q.split.2 = [] ∧ q.tables = [q.table]
      ∨ q.count = 2 ∧ q.chromaTable = 1 ∧ q.split.2 ≠ [] ∧ q.tables = [q.split.1, q.split.2] := by
  have hcount : q.count = if q.split.2.isEmpty then 1 else 2 := by
    unfold count split
    simp only [List.isEmpty_iff, List.drop_eq_nil_iff]
  have happend := q.split_append
  unfold chromaTable tables
  rw [hcount]
  by_cases hempty : q.split.2 = []
  · rw [hempty, List.append_nil] at happend
    exact .inl (by simp [hempty, happend])
  · exact .inr (by simp [hempty])

theorem length_tables : q.tables.length = q.count := by
  rcases q.tables_cases with ⟨hcount, -, -, htables⟩ | ⟨hcount, -, -, htables⟩ <;>
    rw [hcount, htables] <;> rfl

theorem flatten_tables : q.tables.flatten = q.table := by
  rcases q.tables_cases with ⟨-, -, -, htables⟩ | ⟨-, -, -, htables⟩ <;>
    simp [htables, q.split_append]

theorem length_le_of_mem_tables (h : q.table.length ≤ 65535) :
    ∀ table ∈ q.tables, table.length < 65533 := by
  have hfirst : q.split.1.length ≤ 128 := by
    unfold split
    dsimp only
    rw [List.length_take]
    split <;> omega
  have hsecond : q.split.2.length ≤ q.table.length - 64 := by
    unfold split
    dsimp only
    rw [List.length_drop]
    split <;> omega
  intro table htable
  unfold tables at htable
  rcases List.mem_cons.1 htable with rfl | htable
  · omega
  · split at htable
    · cases htable
    · rw [List.mem_singleton.1 htable]
      omega

/-- A bit and a number, in the two halves of a byte. -/
theorem ofNat_mul_or {bit id : Nat} (hbit : bit < 2) (hid : id < 2) :
    UInt8.ofNat bit * 16 ||| UInt8.ofNat id = UInt8.ofNat (bit * 16 + id) := by
  have hall : ∀ bit id : Fin 2, UInt8.ofNat bit.val * 16 ||| UInt8.ofNat id.val
      = UInt8.ofNat (bit.val * 16 + id.val) := by decide
  exact hall ⟨bit, hbit⟩ ⟨id, hid⟩

theorem dqt_eq {id : Nat} (hid : id < 2) (table : Bytes) :
    dqt (UInt8.ofNat id) (UInt8.ofNat (q.precision.toNat / 2 ^ id % 2)) table
      = (q.tableSegment id table).bytes := by
  unfold dqt tableSegment Segment.bytes
  rw [ofNat_mul_or (Nat.mod_lt _ Nat.zero_lt_two) hid]

theorem segments_eq : q.segments = (q.tables.mapIdx q.tableSegment).flatMap Segment.bytes := by
  have hfirst := q.dqt_eq Nat.zero_lt_two q.split.1
  have hsecond := q.dqt_eq Nat.one_lt_two q.split.2
  rw [Nat.pow_zero, Nat.div_one] at hfirst
  unfold segments tables
  dsimp only
  split <;> simp [← hfirst, ← hsecond]

end Quantization

def huffmanSegment (id : UInt8) (t : HuffmanTable) : Segment :=
  ⟨0xC4, id :: (t.lengths ++ t.symbols)⟩

/-- The segments in front of the tables. -/
def segmentsBefore (p : Params) : List Segment :=
  ⟨0xE0, [0x4A, 0x46, 0x49, 0x46, 0x00, 0x01, 0x01, 0x00, 0x00, 0x01, 0x00, 0x01, 0x00, 0x00]⟩
    :: if p.restartInterval = 0 then [] else [⟨0xDD, be16 p.restartInterval⟩]

/-- The segments between the tables and the one that starts the scan. -/
def segmentsBehind (p : Params) (q : Quantization) : List Segment :=
  [⟨0xC0, [0x08] ++ be16 p.height ++ be16 p.width
      ++ [3, 0x01, lumaSampling p.type, 0x00, 0x02, 0x11, q.chromaTable, 0x03, 0x11, q.chromaTable]⟩,
    huffmanSegment 0x00 lumaDc, huffmanSegment 0x10 lumaAc, huffmanSegment 0x01 chromaDc,
    huffmanSegment 0x11 chromaAc]

def scanSegment : Segment :=
  ⟨0xDA, [0x03, 0x01, 0x00, 0x02, 0x11, 0x03, 0x11, 0x00, 0x3F, 0x00]⟩

def headerSegments (p : Params) (q : Quantization) : List Segment :=
  segmentsBefore p ++ (q.tables.mapIdx q.tableSegment ++ segmentsBehind p q) ++ [scanSegment]

theorem header_eq (p : Params) (q : Quantization) :
    header p q = 0xFF :: 0xD8 :: (headerSegments p q).flatMap Segment.bytes := by
  have hrestart : dri p.restartInterval
      = (if p.restartInterval = 0 then [] else [⟨0xDD, be16 p.restartInterval⟩]).flatMap
        Segment.bytes := by
    unfold dri
    split
    · rfl
    · rw [List.flatMap_singleton]
      rfl
  unfold header headerSegments segmentsBefore segmentsBehind
  rw [hrestart, q.segments_eq]
  simp only [List.flatMap_append, List.flatMap_cons, List.flatMap_nil, List.cons_append,
    List.append_assoc, List.append_nil]
  rfl

/-! ### What it holds -/

theorem bodies_append (marker : UInt8) (first second : List Segment) :
    bodies marker (first ++ second) = bodies marker first ++ bodies marker second := by
  simp [bodies]

/-- Each table counts exactly the symbols that it lists. -/
theorem lengths_huffman :
    ∀ t ∈ [lumaDc, lumaAc, chromaDc, chromaAc],
      t.symbols.length ≤ 162 ∧ t.lengths.length = 16
        ∧ (t.lengths.map (·.toNat)).sum = t.symbols.length := by
  decide +kernel

section

variable (p : Params) (q : Quantization)

theorem bodies_tables (marker : UInt8) :
    bodies marker (q.tables.mapIdx q.tableSegment)
      = if marker = 0xDB then q.tables.mapIdx fun id table => (q.tableSegment id table).body
        else [] := by
  have hmarker : ∀ s ∈ q.tables.mapIdx q.tableSegment, s.marker = 0xDB := by
    intro s hs
    obtain ⟨id, hid, rfl⟩ := List.mem_mapIdx.1 hs
    rfl
  unfold bodies
  split
  next h =>
    have hall : ∀ s ∈ q.tables.mapIdx q.tableSegment, decide (s.marker = marker) = true := by
      intro s hs
      rw [hmarker s hs, h]
      rfl
    rw [List.filter_eq_self.2 hall, List.mapIdx_eq_zipIdx_map, List.mapIdx_eq_zipIdx_map,
      List.map_map]
    rfl
  next h =>
    have hnone : ∀ s ∈ q.tables.mapIdx q.tableSegment, ¬decide (s.marker = marker) = true := by
      intro s hs hsame
      exact h ((of_decide_eq_true hsame).symm.trans (hmarker s hs))
    rw [List.filter_eq_nil_iff.2 hnone, List.map_nil]

theorem bodies_headerSegments (marker : UInt8) :
    bodies marker (headerSegments p q)
      = bodies marker (segmentsBefore p)
        ++ ((if marker = 0xDB then q.tables.mapIdx fun id table => (q.tableSegment id table).body
          else []) ++ bodies marker (segmentsBehind p q ++ [scanSegment])) := by
  unfold headerSegments
  simp only [bodies_append, bodies_tables, List.append_assoc]

/-- The bodies with a marker other than that of the tables. -/
theorem bodies_of_ne {marker : UInt8} (h : marker ≠ 0xDB) :
    bodies marker (headerSegments p q) = bodies marker (segmentsBefore p)
      ++ bodies marker (segmentsBehind p q ++ [scanSegment]) := by
  rw [bodies_headerSegments, if_neg h, List.nil_append]

theorem bodies_huffman :
    bodies 0xC4 (headerSegments p q)
      = [0x00 :: (lumaDc.lengths ++ lumaDc.symbols), 0x10 :: (lumaAc.lengths ++ lumaAc.symbols),
        0x01 :: (chromaDc.lengths ++ chromaDc.symbols),
        0x11 :: (chromaAc.lengths ++ chromaAc.symbols)] := by
  rw [bodies_of_ne p q (by decide)]
  unfold segmentsBefore
  split <;> rfl

theorem forall_mem_headerSegments {P : Segment → Prop} (hbefore : ∀ s ∈ segmentsBefore p, P s)
    (htables : ∀ id, ∀ table ∈ q.tables, P (q.tableSegment id table))
    (hbehind : ∀ s ∈ segmentsBehind p q, P s) :
    ∀ s ∈ segmentsBefore p ++ (q.tables.mapIdx q.tableSegment ++ segmentsBehind p q), P s := by
  simp only [List.forall_mem_append]
  refine ⟨hbefore, ?_, hbehind⟩
  intro s hs
  obtain ⟨id, hid, rfl⟩ := List.mem_mapIdx.1 hs
  exact htables id _ (List.getElem_mem hid)

theorem marker_ne_of_mem :
    ∀ s ∈ segmentsBefore p ++ (q.tables.mapIdx q.tableSegment ++ segmentsBehind p q),
      s.marker ≠ 0xDA := by
  refine forall_mem_headerSegments p q ?_ ?_ ?_
  · unfold segmentsBefore
    split <;> simp
  · intro id table _
    exact show (0xDB : UInt8) ≠ 0xDA by decide
  · simp [segmentsBehind, huffmanSegment]

/-- Every length fits into two bytes. -/
theorem length_body_lt (h : q.table.length ≤ 65535) :
    ∀ s ∈ headerSegments p q, s.body.length + 2 < 2 ^ 16 := by
  unfold headerSegments
  rw [List.forall_mem_append]
  refine ⟨forall_mem_headerSegments p q ?_ ?_ ?_, by simp [scanSegment]⟩
  · unfold segmentsBefore
    split <;> simp [be16]
  · intro id table htable
    have hlength := q.length_le_of_mem_tables h table htable
    simp only [Quantization.tableSegment, List.length_cons]
    omega
  · have hhuffman : ∀ id, ∀ t ∈ [lumaDc, lumaAc, chromaDc, chromaAc],
        (huffmanSegment id t).body.length + 2 < 2 ^ 16 := by
      intro id t ht
      obtain ⟨hsymbols, hlengths, -⟩ := lengths_huffman t ht
      simp only [huffmanSegment, List.length_cons, List.length_append]
      omega
    simp only [segmentsBehind, List.forall_mem_cons]
    exact ⟨by simp [be16], hhuffman _ _ (by simp), hhuffman _ _ (by simp), hhuffman _ _ (by simp),
      hhuffman _ _ (by simp), by simp⟩

theorem isHeaderOf_headerSegments (h : q.table.length ≤ 65535) :
    IsHeaderOf (headerSegments p q) p q where
  markers := by
    have htables : (q.tables.mapIdx q.tableSegment).map (·.marker)
        = List.replicate q.count 0xDB := by
      rcases q.tables_cases with ⟨hcount, -, -, htables⟩ | ⟨hcount, -, -, htables⟩ <;>
        rw [hcount, htables] <;> rfl
    unfold headerSegments segmentsBefore
    simp only [List.map_append, htables, List.append_assoc]
    split <;> rfl
  restart := by
    rw [bodies_of_ne p q (by decide)]
    unfold segmentsBefore
    split <;> rfl
  tables := by
    refine ⟨q.tables, q.length_tables, q.flatten_tables, ?_⟩
    have hbefore : bodies 0xDB (segmentsBefore p) = [] := by
      unfold segmentsBefore
      split <;> rfl
    rw [bodies_headerSegments, if_pos rfl, hbefore, List.nil_append]
    exact List.append_nil _
  frame := by
    have hchroma : q.chromaTable = if q.count = 2 then 1 else 0 := by
      rcases q.tables_cases with ⟨hcount, hchroma, -⟩ | ⟨hcount, hchroma, -⟩ <;>
        rw [hcount, hchroma] <;> rfl
    rw [bodies_of_ne p q (by decide), ← hchroma]
    unfold segmentsBefore
    split <;> rfl
  huffmanIds := by
    rw [bodies_huffman]
    rfl
  huffman := by
    rw [bodies_huffman]
    simp only [List.forall_mem_cons]
    exact ⟨⟨_, _, _, rfl, (lengths_huffman _ (by simp)).2⟩,
      ⟨_, _, _, rfl, (lengths_huffman _ (by simp)).2⟩,
      ⟨_, _, _, rfl, (lengths_huffman _ (by simp)).2⟩,
      ⟨_, _, _, rfl, (lengths_huffman _ (by simp)).2⟩, by simp⟩
  fits := length_body_lt p q h

/-- The header is walked from its first byte to the scan. -/
theorem walk?_header (h : q.table.length ≤ 65535) (scan : Bytes) :
    walk? (header p q ++ scan) = some (headerSegments p q, scan) := by
  rw [header_eq]
  exact readSegments?_append (length_body_lt p q h) (marker_ne_of_mem p q) rfl scan

end

/-! ## Tables in force -/

/-- The tables that a header is made of. -/
def Opening.tables (o : Opening) : Quantization :=
  if 128 ≤ o.params.quality.toNat then o.quantization else scaledTables o.params.quality

theorem length_sent_le {sent : Quantization} (h : sent.table.length ≤ 65535) (packet : RtpPacket) :
    (Fragment.read sent packet).1.table.length ≤ 65535 := by
  unfold Fragment.read
  split
  next => exact h
  next piece _ =>
    dsimp only
    split
    · exact h
    split
    · exact h
    split
    next => exact h
    next => exact h
    next q rest hread =>
      have hq : q.table.length ≤ 65535 := by
        unfold TableHeader.read at hread
        split at hread
        next =>
          dsimp only at hread
          split at hread
          next => cases hread
          next =>
            obtain ⟨rfl, -⟩ := TableHeader.table.inj hread
            dsimp only
            rw [List.length_take]
            exact Nat.le_trans (Nat.min_le_left _ _) (Nat.le_of_lt_succ (ofBe16 _ _).toNat_lt)
        next => cases hread
      by_cases hempty : q.table.isEmpty = true
      · rw [if_pos hempty]
        split <;> exact h
      · rw [if_neg hempty]
        split <;> exact hq

/-- No table that a stream has sent is longer than its length can say. -/
theorem length_inForce_le (packets : List RtpPacket) : (inForce packets).table.length ≤ 65535 := by
  induction packets using List.reverseRecOn with
  | nil => exact Nat.zero_le _
  | append_singleton packets packet ih =>
    rw [inForce_append_singleton]
    exact length_sent_le ih packet

theorem Gathered.length_tables_le {packets : List RtpPacket} {packet : RtpPacket} {g : Gathering}
    (h : Gathered packets packet g) : g.opening.tables.table.length ≤ 65535 := by
  induction h with
  | opens held =>
    unfold Opening.tables
    split
    · exact length_inForce_le _
    · simp [scaledTables, lumaQuantizer, chromaQuantizer]
  | prolongs image unmarked timestamp held ih => exact ih
  | passes image unmarked timestamp held ih => exact ih

theorem Opening.header_eq (o : Opening) : o.header = Jpeg.header o.params o.tables := rfl

/-- A scan is left as it is or gets the end marker, and ends with it. -/
theorem complete_cases (scan : Bytes) :
    (complete scan = scan ∨ complete scan = scan ++ endOfImage)
      ∧ endOfImage <:+ complete scan := by
  unfold complete
  split
  next hsuffix => exact ⟨.inl rfl, List.isSuffixOf_iff_suffix.1 hsuffix⟩
  next => exact ⟨.inr rfl, List.suffix_append _ _⟩

/-! ## Images -/

/-- Every header with tables of at most 65535 bytes is walked from its first marker to the scan, and
its segments are those of its parameters and tables. So is every image that is handed out, with the
parameters of the packet that opened it and the tables that were in force then; its scan ends with
the end marker. -/
theorem walk?_image :
    (∀ (p : Params) (q : Quantization) (scan : Bytes), q.table.length ≤ 65535 →
      ∃ segments, walk? (header p q ++ scan) = some (segments, scan) ∧ IsHeaderOf segments p q)
      ∧ ∀ (packets : List RtpPacket) (packet : RtpPacket) (frame : MediaFrame),
        ((feed process {} packets).1.process packet).2 = some frame →
        ∃ g, Gathered packets packet g ∧ ∃ image segments, frame.units = [image]
          ∧ walk? image = some (segments, complete g.scan)
          ∧ IsHeaderOf segments g.opening.params g.opening.tables
          ∧ (complete g.scan = g.scan ∨ complete g.scan = g.scan ++ endOfImage)
          ∧ endOfImage <:+ complete g.scan := by
  constructor
  · intro p q scan h
    exact ⟨headerSegments p q, walk?_header p q h scan, isHeaderOf_headerSegments p q h⟩
  · intro packets packet frame hframe
    obtain ⟨-, g, hgathered, rfl⟩ := (process_eq_some_iff packets packet frame).1 hframe
    have hlength := hgathered.length_tables_le
    refine ⟨g, hgathered, _, headerSegments g.opening.params g.opening.tables, rfl, ?_,
      isHeaderOf_headerSegments _ _ hlength, complete_cases g.scan⟩
    rw [g.opening.header_eq]
    exact walk?_header _ _ hlength _

/-- The longest table there is, and an image with a restart interval, a table of wide entries and
one of narrow ones. -/
theorem walk?_image_two_tables :
    let longest : Quantization := ⟨List.replicate 65535 9, 2⟩
    let sent : Quantization := ⟨List.replicate 129 7, 1⟩
    let params : Params := ⟨65, 255, 64, 48, 4⟩
    let packet : RtpPacket :=
      { marker := true, payloadType := 96, sequence := 7, timestamp := 90, ssrc := 1,
        payload := [0, 0, 0, 0, 65, 255, 8, 6, 0, 4, 0xFF, 0xFF, 0, 1, 0, 129]
          ++ (sent.table ++ [0x12]) }
    let frame : MediaFrame := ⟨90, [headerFor params sent ++ [0x12, 0xFF, 0xD9]]⟩
    (longest.table.length ≤ 65535 ∧ ∃ segments,
        walk? (header params longest ++ [0x12]) = some (segments, [0x12])
          ∧ IsHeaderOf segments params longest)
      ∧ ((feed process {} []).1.process packet).2 = some frame
      ∧ ∃ g, Gathered [] packet g ∧ ∃ image segments, frame.units = [image]
        ∧ walk? image = some (segments, complete g.scan)
        ∧ IsHeaderOf segments g.opening.params g.opening.tables
        ∧ (complete g.scan = g.scan ∨ complete g.scan = g.scan ++ endOfImage)
        ∧ endOfImage <:+ complete g.scan := by
  intro longest sent params packet frame
  have hlength : longest.table.length ≤ 65535 := Nat.le_of_eq List.length_replicate
  have hframe : ((feed process {} []).1.process packet).2 = some frame := by decide +kernel
  exact ⟨⟨hlength, walk?_image.1 params longest [0x12] hlength⟩, hframe,
    walk?_image.2 [] packet frame hframe⟩

end Rtsp.Jpeg
