-- SUMMARY: The answer of a client is a header value, and a server that was answered accepts it.
import Rtsp.Proofs.Authorization.Digest

/-!
# Answers on the wire

An answer goes to the server in a header, so it has to be a value that is read back as it was
written (`DigestAuth.isValue_answer`). A server accepts the answers of a client that was made with
the server's own credentials (`DigestAuth.isClientOf_server`), and finds the count and the client's
nonce in them (`DigestAuth.IsClientOf.isAccepted`).
-/

namespace Rtsp

open Text Authorization

/-- A text that can stand between quotes in a header value. -/
def Authorization.IsQuotable (s : String) : Prop :=
  '"' ∉ s.toList ∧ '\n' ∉ s.toList

instance (s : String) : Decidable (Authorization.IsQuotable s) :=
  inferInstanceAs (Decidable (_ ∧ _))

/-- A field of the authorization that a request carries. -/
def Request.authorizationField? (r : Request) (key : String) : Option String :=
  (r.headers.get? "Authorization").bind fun value => (readFields (splitScheme value).2).get? key

/-- A request that a server accepts, the one of this number from its client. -/
structure Request.IsAccepted (q : Request) (server client : DigestAuth) (number : Nat) : Prop where
  valid : server.isValid q = true
  counted : server.qop.isSome → q.authorizationField? "nc" = some (hex 8 number)
    ∧ q.authorizationField? "cnonce" = some client.clientNonce

namespace Authorization

theorem lineFeed_not_mem_quoted {key value : String} (hkey : '\n' ∉ key.toList)
    (hvalue : '\n' ∉ value.toList) : '\n' ∉ (Field.quoted key value).text.toList := by
  simp [Field.quoted, quoted, hkey, hvalue]

theorem lineFeed_not_mem_plain {key value : String} (hkey : '\n' ∉ key.toList)
    (hvalue : '\n' ∉ value.toList) : '\n' ∉ (Field.plain key value).text.toList := by
  simp [Field.plain, hkey, hvalue]

theorem lineFeed_not_mem_joinFields {es : List Field} (h : ∀ e ∈ es, '\n' ∉ e.text.toList) :
    '\n' ∉ joinFields es := by
  induction es with
  | nil => exact List.not_mem_nil
  | cons e es ih =>
    have he := h e List.mem_cons_self
    have hes := ih fun f hf => h f (List.mem_cons_of_mem e hf)
    cases es with
    | nil => simpa [joinFields, List.intercalate] using he
    | cons f es =>
      rw [joinFields_cons_cons]
      simp [he, hes]

/-- What is joined is at least as long as its parts. -/
theorem sum_length_encode_le (separator : String) (parts : List String) :
    (parts.map fun s => (Utf8.encode s).length).sum
      ≤ (Utf8.encode (String.intercalate separator parts)).length := by
  have hlist : ∀ s : String, Utf8.encode s = s.toList.flatMap String.utf8EncodeChar := fun _ => rfl
  induction parts with
  | nil => exact Nat.zero_le _
  | cons s parts ih =>
    cases parts with
    | nil => simp [hlist]
    | cons t parts =>
      rw [hlist, String.toList_intercalate] at ih ⊢
      simp only [List.map_cons, List.intercalate_cons_cons, List.flatMap_append, List.length_append,
        List.sum_cons] at ih ⊢
      rw [← hlist s]
      omega

end Authorization

namespace DigestAuth

theorem lineFeed_not_mem_hexDigits {s : String} (h : ∀ c ∈ s.toList, IsHexDigit c) :
    '\n' ∉ s.toList :=
  fun hmem => absurd (h _ hmem) (by decide)

/-- Everything that an answer quotes can be quoted, and nothing else is in it. -/
structure IsPresentable (d : DigestAuth) : Prop where
  opaqueData : d.opaqueData = none
  algorithm : d.algorithm = none
  username : IsQuotable d.credentials.username
  realm : IsQuotable d.realm
  nonce : IsQuotable d.nonce
  clientNonce : IsQuotable d.clientNonce

theorem IsPresentable.isWritable {d : DigestAuth} (h : d.IsPresentable) : d.IsWritable :=
  ⟨h.opaqueData, h.algorithm, h.username.1, h.realm.1, h.nonce.1, h.clientNonce.1⟩

section

variable {d : DigestAuth} {count : UInt32} {r : Request}

theorem lineFeed_not_mem_answerFields (hd : d.IsPresentable) (huri : IsQuotable r.uri) :
    ∀ e ∈ d.answerFields count r, '\n' ∉ e.text.toList := by
  have hresponse : '\n' ∉ (d.responseHash d.credentials.username (d.protection? count)
      r.method.token r.uri r.body).toList :=
    lineFeed_not_mem_hexDigits isHexDigit_of_mem_responseHash
  intro e he
  rcases List.mem_append.1 he with he | he
  · simp only [List.mem_cons, List.not_mem_nil, or_false] at he
    rcases he with rfl | rfl | rfl | rfl | rfl
    · exact lineFeed_not_mem_quoted (by decide) hd.username.2
    · exact lineFeed_not_mem_quoted (by decide) hd.realm.2
    · exact lineFeed_not_mem_quoted (by decide) hd.nonce.2
    · exact lineFeed_not_mem_quoted (by decide) huri.2
    · exact lineFeed_not_mem_quoted (by decide) hresponse
  · unfold protection? at he
    cases hqop : d.qop with
    | none =>
      rw [hqop] at he
      exact absurd he List.not_mem_nil
    | some qop =>
      rw [hqop] at he
      have htoken : '\n' ∉ qop.token.toList := by cases qop <;> decide
      simp only [Option.map_some, List.mem_cons, List.not_mem_nil, or_false] at he
      rcases he with rfl | rfl | rfl
      · exact lineFeed_not_mem_plain (by decide) htoken
      · exact lineFeed_not_mem_plain (by decide)
          (lineFeed_not_mem_hexDigits fun c hc => isHexDigit_of_mem_hex hc)
      · exact lineFeed_not_mem_quoted (by decide) hd.clientNonce.2

/-- An answer is read back as it was written. -/
theorem isValue_answer (hd : d.IsPresentable) (huri : IsQuotable r.uri) :
    Headers.IsValue (d.answer count r.method.token r.uri r.body) := by
  have hfields : ∀ e ∈ d.answerFields count r, e.WellFormed :=
    wellFormed_answerFields hd.isWritable huri.1
  have hne : d.answerFields count r ≠ [] := List.cons_ne_nil _ _
  have htext : (d.answer count r.method.token r.uri r.body).toList
      = "Digest".toList ++ ([' '] ++ joinFields (d.answerFields count r)) := by
    rw [answer_eq hd.isWritable]
    unfold writeFields
    rw [String.toList_append, toList_intercalate_text]
    rfl
  have hscheme : IsFramed "Digest".toList :=
    ⟨⟨'D', by decide, by decide⟩, ⟨'t', by decide, by decide⟩⟩
  have hfeed : '\n' ∉ joinFields (d.answerFields count r) :=
    lineFeed_not_mem_joinFields (lineFeed_not_mem_answerFields hd huri)
  unfold Headers.IsValue
  rw [htext]
  refine ⟨(hscheme.append (isFramed_joinFields hfields hne) [' ']).trim_eq, ?_⟩
  simp [hfeed]

/-- An answer is longer than the start line of the request. -/
theorem length_uri_add_le_length_answer :
    (Utf8.encode r.uri).length + 21
      ≤ (Utf8.encode (d.answer count r.method.token r.uri r.body)).length := by
  have hquoted : ∀ key value : String, (Utf8.encode (Authorization.quoted key value)).length
      = (Utf8.encode key).length + (Utf8.encode value).length + 3 := by
    intro key value
    have hopen : (Utf8.encode "=\"").length = 2 := by decide
    have hclose : (Utf8.encode "\"").length = 1 := by decide
    simp only [Authorization.quoted, Utf8.encode_append, List.length_append]
    omega
  have hkeys : (Utf8.encode "username").length = 8 ∧ (Utf8.encode "realm").length = 5
      ∧ (Utf8.encode "nonce").length = 5 ∧ (Utf8.encode "uri").length = 3
      ∧ (Utf8.encode "response").length = 8 := by decide
  unfold answer writeFields
  dsimp only
  rw [Utf8.encode_append, List.length_append]
  refine Nat.le_trans ?_ (Nat.add_le_add_left (sum_length_encode_le ", " _) _)
  simp only [List.map_append, List.sum_append, List.map_cons, List.sum_cons, hquoted]
  omega

/-- The fields of an answer are found by their keys. -/
theorem authorizationField?_eq (hd : d.IsWritable) (huri : '"' ∉ r.uri.toList) {q : Request}
    (hcarried : q.headers.get? "Authorization"
      = some (d.answer count r.method.token r.uri r.body)) (key : String) :
    q.authorizationField? key = (setFields {} (d.answerFields count r)).get? key := by
  have hfields : ∀ e ∈ d.answerFields count r, e.WellFormed := wellFormed_answerFields hd huri
  have hne : d.answerFields count r ≠ [] := List.cons_ne_nil _ _
  unfold Request.authorizationField?
  rw [hcarried, Option.bind_some, answer_eq hd, splitScheme_writeFields hfields hne,
    readFields_joinFields hfields hne]

/-- Under a protection the server can read the count and the client's nonce. -/
theorem authorizationField?_of_answer (hd : d.IsWritable) (huri : '"' ∉ r.uri.toList) {q : Request}
    (hcarried : q.headers.get? "Authorization"
      = some (d.answer count r.method.token r.uri r.body)) (hqop : d.qop.isSome) :
    q.authorizationField? "nc" = some (hex 8 count.toNat)
      ∧ q.authorizationField? "cnonce" = some d.clientNonce := by
  obtain ⟨qop, hsome⟩ := Option.isSome_iff_exists.1 hqop
  have hprotection : d.protection? count = some ⟨qop, hex 8 count.toNat, d.clientNonce⟩ := by
    unfold protection?
    rw [hsome]
    rfl
  have hread := authorizationField?_eq hd huri hcarried
  rw [hread, hread]
  unfold answerFields setFields
  rw [hprotection]
  simp [Field.quoted, Field.plain, Params.get?_insert]

end

/-! ## A server and its client -/

/-- The client that the challenge of a server makes out of these random numbers. It has authorized
nothing yet, and the server accepts its answers. -/
structure IsClientOf (client server : DigestAuth) (draws : Draws) : Prop where
  accepted : ∃ rest, Authentication.ofChallenge client.credentials server.challenge draws
    = .ok (.digest client, rest)
  presentable : client.IsPresentable
  qop : client.qop = server.qop
  unused : client.nonceCount = 0
  valid : ∀ {count : UInt32} {r q : Request}, '"' ∉ r.uri.toList →
    q.headers.get? "Authorization" = some (client.answer count r.method.token r.uri r.body) →
    q.method.token = r.method.token → q.uri = r.uri → q.body = r.body → server.isValid q = true

/-- A request with the answer that its client has made for it is accepted. -/
theorem IsClientOf.isAccepted {client server : DigestAuth} {draws : Draws}
    (hclient : client.IsClientOf server draws) {number : Nat} (hnumber : number < 2 ^ 32)
    {r q : Request} (huri : '"' ∉ r.uri.toList)
    (hcarried : q.headers.get? "Authorization"
      = some (client.answer (UInt32.ofNat number) r.method.token r.uri r.body))
    (hmethod : q.method.token = r.method.token) (hsame : q.uri = r.uri) (hbody : q.body = r.body) :
    q.IsAccepted server client number where
  valid := hclient.valid huri hcarried hmethod hsame hbody
  counted hqop := by
    have hfields := authorizationField?_of_answer hclient.presentable.isWritable huri hcarried
      (hclient.qop ▸ hqop)
    rwa [UInt32.toNat_ofNat_of_lt' hnumber] at hfields

/-- Where nothing has to be escaped, a server makes a client of its own. -/
theorem isClientOf_client {server : DigestAuth} (hdata : server.opaqueData = none)
    (hname : IsQuotable server.credentials.username) (hrealm : IsQuotable server.realm)
    (hnonce : IsQuotable server.nonce) (draws : Draws) :
    (server.client server.credentials draws).IsClientOf server draws := by
  have hdigits : ∀ c ∈ (server.client server.credentials draws).clientNonce.toList, IsHexDigit c :=
    fun _ hc => isHexDigit_of_mem_hex hc
  have hclient : (server.client server.credentials draws).IsPresentable :=
    ⟨rfl, rfl, hname, hrealm, hnonce, quote_not_mem_hexDigits hdigits,
      lineFeed_not_mem_hexDigits hdigits⟩
  refine ⟨⟨_, ofChallenge_challenge hdata hrealm.1 hnonce.1 server.credentials draws⟩, hclient,
    rfl, rfl, ?_⟩
  intro count r q huri hcarried hmethod hsame hbody
  have hsides : (server.client server.credentials draws).realm = server.realm
      ∧ (server.client server.credentials draws).nonce = server.nonce
      ∧ (server.client server.credentials draws).qop = server.qop := ⟨rfl, rfl, rfl⟩
  have hfits : Fits server.credentials server.credentials server.qop r q :=
    ⟨beq_self_eq_true _, rfl, hmethod, hsame, fun _ => hbody⟩
  exact (Authentication.isValid_of_carried hclient.isWritable hsides.1 hsides.2.1 hsides.2.2 huri
    hcarried).1 hfits

theorem isClientOf_server {credentials : Credentials} {realm : String}
    (hname : IsQuotable credentials.username) (hrealm : IsQuotable realm) (qop : Option Qop)
    (draws drawn : Draws) :
    ((server credentials realm qop draws).1.client credentials drawn).IsClientOf
      (server credentials realm qop draws).1 drawn := by
  have hdigits : ∀ c ∈ (server credentials realm qop draws).1.nonce.toList, IsHexDigit c :=
    fun _ hc => isHexDigit_of_mem_hex hc
  have hnonce : IsQuotable (server credentials realm qop draws).1.nonce :=
    ⟨quote_not_mem_hexDigits hdigits, lineFeed_not_mem_hexDigits hdigits⟩
  have hdata : (server credentials realm qop draws).1.opaqueData = none := rfl
  exact isClientOf_client hdata hname hrealm hnonce drawn

end DigestAuth
end Rtsp
