-- SUMMARY: What is read from the datagrams of a sender, in any run and with any extension.
import Rtsp.Rtp.Sender
import Rtsp.Proofs.Rtp.View

/-!
# Senders

Every datagram of a sender is read again, with the fields that the sender had when it was written.
In a run these are the first ones, moved on by the datagrams and the ticks before
(`RtpSender.run_eq`, `RtpSender.parse_datagrams`). An extension is padded to whole words, and their
number has sixteen bits on the wire. What is not counted there is read as payload
(`RtpPacket.reread`), so the extension is read as it was written exactly if its words can be counted
(`RtpSender.parse_extension_iff`).
-/

namespace Rtsp

/-! ## What is read of a packet -/

namespace RtpPacket

/-- The size of those words of an extension that are counted: the length field holds their number
modulo `2 ^ 16`. -/
def countedSize (words : Bytes) : Nat :=
  4 * (UInt16.ofNat (words.length / 4)).toNat

theorem countedSize_eq (words : Bytes) : countedSize words = 4 * (words.length / 4 % 65536) := by
  rw [countedSize, UInt16.toNat_ofNat']

/-- What stands in the datagram of a packet whose fields may be too large for their places: the
words of the extension that are not counted are payload. -/
def reread (p : RtpPacket) : RtpPacket :=
  { p with
    marker := bit p.kind 7
    payloadType := UInt8.ofNat (p.kind.toNat % 128)
    extension := p.extension.map fun e => (e.1, e.2.take (countedSize e.2))
    payload := (p.extension.elim [] fun e => e.2.drop (countedSize e.2)) ++ p.payload }

theorem length_take_countedSize (words : Bytes) :
    (words.take (countedSize words)).length = countedSize words := by
  rw [List.length_take, Nat.min_eq_left]
  rw [countedSize_eq]
  omega

theorem isExtension_take (id : UInt16) (words : Bytes) :
    IsExtension (id, words.take (countedSize words)) :=
  ⟨UInt16.ofNat (words.length / 4), length_take_countedSize words⟩

/-- The length field is the same if only what it counts is there. -/
theorem encodeExtension_take (id : UInt16) (words : Bytes) :
    encodeExtension (some (id, words.take (countedSize words))) ++ words.drop (countedSize words)
      = encodeExtension (some (id, words)) := by
  have hfield := (isExtension_take id words).length_field
  have hcount : UInt16.ofNat ((words.take (countedSize words)).length / 4)
      = UInt16.ofNat (words.length / 4) := by
    apply UInt16.toNat_inj.1
    have hcounted : (words.take (countedSize words)).length
        = 4 * (UInt16.ofNat (words.length / 4)).toNat := length_take_countedSize words
    dsimp only at hfield
    omega
  rw [encodeExtension, hcount, List.append_assoc, List.take_append_drop, encodeExtension]

theorem encode_reread (p : RtpPacket) : p.reread.encode = p.encode := by
  have hflags : p.reread.flags = p.flags := by
    unfold flags reread
    cases p.extension <;> rfl
  have hkind : p.reread.kind = p.kind := eq_kind rfl rfl
  have hextension : encodeExtension p.reread.extension ++ p.reread.payload
      = encodeExtension p.extension ++ p.payload := by
    unfold reread
    cases p.extension with
    | none => rfl
    | some e =>
      dsimp only [Option.map_some, Option.elim_some]
      rw [← List.append_assoc, encodeExtension_take]
  have hfront : p.reread.front = p.front := by
    rw [front, front, fixedHeader, fixedHeader, hflags, hkind]
    rfl
  rw [encode_eq_front, encode_eq_front, hfront, back, back, ← List.append_assoc (encodeExtension _),
    hextension, List.append_assoc]
  rfl

/-- A packet without contributing sources and padding is read again, whatever its fields are. -/
theorem read?_encode_reread {p : RtpPacket} (hcsrcs : p.csrcs = []) (hpadding : p.padding = none) :
    p.reread.WellFormed ∧ read? p.encode = some p.reread := by
  have hcount : p.reread.csrcs.length < 16 := by
    change p.csrcs.length < 16
    rw [hcsrcs]
    decide
  have hwell : p.reread.WellFormed :=
    { payloadType := by
        change (UInt8.ofNat (p.kind.toNat % 128)).toNat < 128
        rw [UInt8.toNat_ofNat']
        omega
      csrcs := hcount
      extension := by
        intro e he
        obtain ⟨e, -, rfl⟩ := Option.map_eq_some_iff.1 he
        exact isExtension_take e.1 e.2
      padding := by
        have hnone : p.reread.padding = none := hpadding
        rw [paddingOf, (flags_bits hcount).2.2.2, hnone]
        rfl }
  exact ⟨hwell, p.encode_reread ▸ read?_encode hwell⟩

end RtpPacket

namespace RtpSender

/-- The datagram of a sender is accepted, and its view shows what is read of it. -/
theorem exists_view_send (s : RtpSender) (marker : Bool) (payload : Bytes)
    (extension : Option (UInt16 × Bytes)) :
    ∃ v, RtpView.parse (s.send marker payload extension).1.encode = .ok (.ok v)
      ∧ v.Shows (s.send marker payload extension).1.reread := by
  obtain ⟨hwell, hread⟩ :=
    RtpPacket.read?_encode_reread (p := (s.send marker payload extension).1) rfl rfl
  exact ⟨_, RtpView.parse_eq_ok_iff.2 ⟨_, hread, rfl⟩, RtpView.shows_ofPacket hwell⟩

theorem shows_of_parse_send {s : RtpSender} {marker : Bool} {payload : Bytes}
    {extension : Option (UInt16 × Bytes)} {v : RtpView}
    (h : RtpView.parse (s.send marker payload extension).1.encode = .ok (.ok v)) :
    v.Shows (s.send marker payload extension).1.reread := by
  obtain ⟨w, hw, hshows⟩ := s.exists_view_send marker payload extension
  obtain rfl : v = w := Except.ok.inj (Except.ok.inj (h.symm.trans hw))
  exact hshows

/-! ## Runs -/

/-- What a sender is asked to do. -/
inductive Action where
  | send (marker : Bool) (payload : Bytes) (extension : Option (UInt16 × Bytes))
  | advance (ticks : UInt32)
  deriving DecidableEq, Repr

def Action.isSend : Action → Bool
  | .send .. => true
  | .advance _ => false

def Action.ticks : Action → Nat
  | .send .. => 0
  | .advance ticks => ticks.toNat

def act (s : RtpSender) : Action → RtpSender
  | .send marker payload extension => (s.send marker payload extension).2
  | .advance ticks => s.advance ticks

/-- The datagram that an action writes. -/
def datagram? (s : RtpSender) : Action → Option Bytes
  | .send marker payload extension => some (s.send marker payload extension).1.encode
  | .advance _ => none

def run (s : RtpSender) (actions : List Action) : RtpSender :=
  actions.foldl act s

/-- The datagrams of a run, in the order in which they are written. -/
def written (s : RtpSender) : List Action → List Bytes
  | [] => []
  | action :: actions => (s.datagram? action).toList ++ (s.act action).written actions

/-- The number of datagrams in a run. -/
def sends (actions : List Action) : Nat :=
  actions.countP Action.isSend

/-- The time that passes in a run: the sum of all advances. -/
def ticks : List Action → Nat
  | [] => 0
  | action :: actions => action.ticks + ticks actions

/-- The sender after so many datagrams and so much time. -/
def moved (s : RtpSender) (sends ticks : Nat) : RtpSender :=
  { s with
    sequence := .ofNat (s.sequence.toNat + sends)
    timestamp := .ofNat (s.timestamp.toNat + ticks) }

theorem moved_zero (s : RtpSender) : s.moved 0 0 = s := by
  simp [moved]

/-- Each action moves the sender on by what it writes and by the time that it takes. -/
theorem act_moved (s : RtpSender) (sends ticks : Nat) (action : Action) :
    (s.moved sends ticks).act action
      = s.moved (sends + if action.isSend then 1 else 0) (ticks + action.ticks) := by
  cases action with
  | send marker payload extension =>
    have hsequence : UInt16.ofNat (s.sequence.toNat + sends) + 1
        = UInt16.ofNat (s.sequence.toNat + (sends + 1)) := by
      rw [← Nat.add_assoc, UInt16.ofNat_add _ 1]
      rfl
    simp only [act, send, moved, hsequence]
    rfl
  | advance passed =>
    have htimestamp : UInt32.ofNat (s.timestamp.toNat + ticks) + passed
        = UInt32.ofNat (s.timestamp.toNat + (ticks + passed.toNat)) := by
      rw [← Nat.add_assoc, UInt32.ofNat_add _ passed.toNat, UInt32.ofNat_toNat]
    simp only [act, advance, moved, htimestamp]
    rfl

theorem sends_cons (action : Action) (actions : List Action) :
    sends (action :: actions) = (if action.isSend then 1 else 0) + sends actions := by
  rw [sends, List.countP_cons, Nat.add_comm]
  rfl

theorem run_moved (s : RtpSender) (n t : Nat) (actions : List Action) :
    (s.moved n t).run actions = s.moved (n + sends actions) (t + ticks actions) := by
  induction actions generalizing n t with
  | nil => rfl
  | cons action actions ih =>
    rw [run, List.foldl_cons, act_moved, sends_cons, ticks, ← Nat.add_assoc, ← Nat.add_assoc]
    exact ih _ _

theorem run_eq (s : RtpSender) (actions : List Action) :
    s.run actions = s.moved (sends actions) (ticks actions) := by
  have hrun := s.run_moved 0 0 actions
  rwa [moved_zero, Nat.zero_add, Nat.zero_add] at hrun

theorem length_written (s : RtpSender) (actions : List Action) :
    (s.written actions).length = sends actions := by
  induction actions generalizing s with
  | nil => rfl
  | cons action actions ih =>
    rw [written, List.length_append, ih, sends_cons]
    cases action <;> rfl

/-- Every datagram of a run is written by one of its actions, after those in front of it. -/
theorem exists_send_of_written {s : RtpSender} {actions : List Action} {j : Nat} {data : Bytes}
    (h : (s.written actions)[j]? = some data) :
    ∃ before marker payload extension after,
      actions = before ++ .send marker payload extension :: after ∧ sends before = j
        ∧ ((s.run before).send marker payload extension).1.encode = data := by
  induction actions generalizing s j with
  | nil => cases h
  | cons action actions ih =>
    cases action with
    | send marker payload extension =>
      cases j with
      | zero => exact ⟨[], marker, payload, extension, actions, rfl, rfl, Option.some.inj h⟩
      | succ j =>
        obtain ⟨before, marker', payload', extension', after, rfl, rfl, hdata⟩ := ih h
        refine ⟨.send marker payload extension :: before, marker', payload', extension', after, rfl,
          ?_, hdata⟩
        rw [sends_cons, Nat.add_comm]
        rfl
    | advance passed =>
      obtain ⟨before, marker, payload, extension, after, rfl, rfl, hdata⟩ := ih h
      refine ⟨.advance passed :: before, marker, payload, extension, after, rfl, ?_, hdata⟩
      rw [sends_cons]
      exact Nat.zero_add _

/-! ## What the datagrams of a run show -/

/-- A sender as it is made for this payload type, with a given source or a random one. -/
inductive IsNew (payloadType : UInt8) : RtpSender → Prop where
  | create (ssrc : UInt32) : IsNew payloadType (.create payloadType ssrc)
  | random (draws : Draws) : IsNew payloadType (RtpSender.random payloadType draws).1

theorem IsNew.payloadType_eq {payloadType : UInt8} {s : RtpSender} (h : IsNew payloadType s) :
    s.payloadType = UInt8.ofNat (payloadType.toNat % 128) := by
  cases h <;> rfl

/-- The view of a datagram that a sender, which was `s` at first, writes after this number of
datagrams and this time. -/
structure Shown (s : RtpSender) (sends ticks : Nat) (marker : Bool) (v : RtpView) : Prop where
  version : v.version = .ok 2
  hasPadding : v.hasPadding = .ok false
  csrcCount : v.csrcCount = .ok 0
  marker : v.marker = .ok marker
  payloadType : v.payloadType = .ok s.payloadType
  ssrc : v.ssrc = .ok s.ssrc
  sequence : v.sequence = .ok (.ofNat (s.sequence.toNat + sends))
  timestamp : v.timestamp = .ok (.ofNat (s.timestamp.toNat + ticks))

theorem exists_shown {payloadType : UInt8} {s : RtpSender} (h : IsNew payloadType s)
    (before : List Action) (marker : Bool) (payload : Bytes) (extension : Option (UInt16 × Bytes)) :
    ∃ v, RtpView.parse ((s.run before).send marker payload extension).1.encode = .ok (.ok v)
      ∧ Shown s (sends before) (ticks before) marker v
      ∧ (extension = none → v.extension = .ok none ∧ v.payload = .ok payload) := by
  obtain ⟨v, hv, hshows⟩ := (s.run before).exists_view_send marker payload extension
  have hmoved := s.run_eq before
  have htype : (s.run before).payloadType.toNat < 128 := by
    rw [hmoved]
    change s.payloadType.toNat < 128
    rw [h.payloadType_eq, UInt8.toNat_ofNat']
    omega
  obtain ⟨hmarker, hkind⟩ :=
    RtpPacket.kind_bits (p := ((s.run before).send marker payload extension).1) htype
  refine ⟨v, hv, ?_, ?_⟩
  · exact
      { version := hshows.version
        hasPadding := hshows.hasPadding
        csrcCount := hshows.csrcCount
        marker := hshows.marker.trans (congrArg Except.ok hmarker)
        payloadType := by
          refine hshows.payloadType.trans (congrArg Except.ok (hkind.trans ?_))
          change (s.run before).payloadType = s.payloadType
          rw [hmoved]
          rfl
        ssrc := hshows.ssrc.trans (congrArg (Except.ok ·.ssrc) hmoved)
        sequence := hshows.sequence.trans (congrArg (Except.ok ·.sequence) hmoved)
        timestamp := hshows.timestamp.trans (congrArg (Except.ok ·.timestamp) hmoved) }
  · rintro rfl
    exact ⟨hshows.extension, hshows.payload⟩

/-- A run writes one datagram for each packet that is sent. The `j`-th of them is accepted, with the
numbers and the time of the run so far, and shows the payload that was sent without an extension. -/
theorem parse_datagrams {payloadType : UInt8} {s : RtpSender} (h : IsNew payloadType s)
    (actions : List Action) :
    s.payloadType = UInt8.ofNat (payloadType.toNat % 128)
      ∧ (s.written actions).length = sends actions
      ∧ ∀ j data, (s.written actions)[j]? = some data →
        ∃ before marker payload extension after,
          actions = before ++ .send marker payload extension :: after ∧ sends before = j
            ∧ ∃ v, RtpView.parse data = .ok (.ok v) ∧ Shown s j (ticks before) marker v
              ∧ (extension = none → v.extension = .ok none ∧ v.payload = .ok payload) := by
  refine ⟨h.payloadType_eq, s.length_written actions, fun j data hdata => ?_⟩
  obtain ⟨before, marker, payload, extension, after, hactions, rfl, rfl⟩ :=
    exists_send_of_written hdata
  exact ⟨before, marker, payload, extension, after, hactions, rfl,
    exists_shown h before marker payload extension⟩

/-- The second datagram of a run whose numbers and time wrap around in front of it. -/
theorem parse_datagrams_wrapped :
    let s := (RtpSender.random 0xE0 [7, 65535, 4294967295]).1
    let actions : List Action :=
      [.send true [1, 2] none, .advance 3000, .send false [3] (some (0xFFD8, [4, 5])),
        .send true [] none]
    let data : Bytes :=
      [0x90, 0x60, 0, 0, 0, 0, 0x0B, 0xB7, 0, 0, 0, 7, 0xFF, 0xD8, 0, 1, 4, 5, 0, 0, 3]
    IsNew 0xE0 s ∧ (s.written actions)[1]? = some data
      ∧ ∃ before marker payload extension after,
        actions = before ++ .send marker payload extension :: after ∧ sends before = 1
          ∧ ∃ v, RtpView.parse data = .ok (.ok v) ∧ Shown s 1 (ticks before) marker v
            ∧ (extension = none → v.extension = .ok none ∧ v.payload = .ok payload) :=
  ⟨.random _, by rfl, (parse_datagrams (.random _) _).2.2 1 _ (by rfl)⟩

/-! ## Extensions -/

theorem length_padWords (bytes : Bytes) :
    (padWords bytes).length = 4 * ((bytes.length + 3) / 4) := by
  rw [padWords, List.length_append, List.length_replicate]
  omega

/-- If the whole extension is read, its words have been counted. -/
theorem length_le_of_extension {s : RtpSender} {marker : Bool} {id : UInt16} {bytes payload : Bytes}
    {v : RtpView}
    (hparse : RtpView.parse (s.send marker payload (some (id, bytes))).1.encode = .ok (.ok v))
    (hread : v.extension = .ok (some (id, padWords bytes))) : bytes.length ≤ 4 * 65535 := by
  have hshown := (shows_of_parse_send hparse).extension
  have hwords := (Prod.mk.inj (Option.some.inj (Except.ok.inj (hread.symm.trans hshown)))).2
  have hlength : (padWords bytes).length
      = ((padWords bytes).take (RtpPacket.countedSize (padWords bytes))).length :=
    congrArg List.length hwords
  rw [RtpPacket.length_take_countedSize, RtpPacket.countedSize_eq, length_padWords] at hlength
  omega

/-- An extension is read as it was written, with zeros up to a whole word, and the payload with it,
exactly if its words can be counted in sixteen bits. -/
theorem parse_extension_iff (s : RtpSender) (marker : Bool) (id : UInt16) (bytes payload : Bytes) :
    (∃ v, RtpView.parse (s.send marker payload (some (id, bytes))).1.encode = .ok (.ok v)
        ∧ v.extension = .ok (some (id, bytes ++ List.replicate ((4 - bytes.length % 4) % 4) 0))
        ∧ v.payload = .ok payload)
      ↔ bytes.length ≤ 4 * 65535 := by
  constructor
  · rintro ⟨v, hparse, hread, -⟩
    exact length_le_of_extension hparse hread
  · intro hle
    have hall : (padWords bytes).length ≤ RtpPacket.countedSize (padWords bytes) := by
      rw [RtpPacket.countedSize_eq, length_padWords]
      omega
    obtain ⟨v, hparse, hshows⟩ := s.exists_view_send marker payload (some (id, bytes))
    have hextension : v.extension = .ok (some (id, (padWords bytes).take _)) := hshows.extension
    have hpayload : v.payload = .ok ((padWords bytes).drop _ ++ payload) := hshows.payload
    rw [List.take_of_length_le hall] at hextension
    rw [List.drop_of_length_le hall] at hpayload
    exact ⟨v, hparse, hextension, hpayload⟩

/-- One byte more than can be counted: the length field is zero, and the extension becomes
payload. -/
theorem parse_extension_uncounted :
    ¬∃ v,
      RtpView.parse ((create 96 1).send false [66] (some (1, List.replicate 262141 65))).1.encode
          = .ok (.ok v)
        ∧ v.extension = .ok (some (1, List.replicate 262141 65 ++ List.replicate 3 0))
        ∧ v.payload = .ok [66] := by
  rintro ⟨v, hparse, hread, -⟩
  have hpadded : padWords (List.replicate 262141 65)
      = List.replicate 262141 65 ++ List.replicate 3 0 := by
    rw [padWords, List.length_replicate]
  have hlength := length_le_of_extension hparse (hpadded ▸ hread)
  rw [List.length_replicate] at hlength
  exact absurd hlength (by decide)

end RtpSender
end Rtsp
