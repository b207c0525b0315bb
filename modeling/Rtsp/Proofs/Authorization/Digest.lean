-- SUMMARY: A digest authorization is accepted for the credentials and the request it was made for.
import Rtsp.Authorization
import Rtsp.Proofs.Authorization.Fields
import Rtsp.Proofs.Message.Headers
import Rtsp.Proofs.Text.Hex

/-!
# Digest authentication

A client that is made from a server's challenge has the server's realm, nonce and protection
(`DigestAuth.ofChallenge_challenge`), and the server reads the fields of the client's answer as they
were written. So whether a request is valid is a matter of two hashes
(`DigestAuth.isValid_iff_responseHash_eq`): they agree if both sides hash the same, and otherwise
only if two different inputs have the same hash (`DigestAuth.Collide`).
-/

namespace Rtsp

open Text Authorization

namespace DigestAuth

/-! ## Fields -/

/-- Fields behind the scheme are found again. -/
theorem splitScheme_writeFields {es : List Field} (h : ∀ e ∈ es, e.WellFormed) (hne : es ≠ []) :
    splitScheme (writeFields (es.map (·.text))) = ("Digest", joinFields es) := by
  have hchars : "Digest".toList.all (fun c => !isBlank c) = true := by decide
  have hscheme : IsWord "Digest".toList := by
    refine ⟨by decide, fun c hc => ?_⟩
    simpa using List.all_eq_true.1 hchars c hc
  refine splitScheme_of_toList hscheme (isFramed_joinFields h hne) ?_
  unfold writeFields
  rw [String.toList_append, toList_intercalate_text]
  rfl

theorem quote_not_mem_hexDigits {s : String} (h : ∀ c ∈ s.toList, IsHexDigit c) :
    '"' ∉ s.toList :=
  fun hmem => absurd (h _ hmem) (by decide)

theorem isPlain_hexDigits {s : String} (h : ∀ c ∈ s.toList, IsHexDigit c) (hne : s.toList ≠ []) :
    IsPlain s := by
  have hdigits : "0123456789abcdef".toList.all
      (fun c => decide (c ≠ ',' ∧ c ≠ '"' ∧ isBlank c = false)) = true := by decide
  exact ⟨hne, fun c hc => of_decide_eq_true (List.all_eq_true.1 hdigits c (h c hc))⟩

theorem quote_not_mem_token (qop : Qop) : '"' ∉ qop.token.toList := by
  cases qop <;> decide

theorem isPlain_token (qop : Qop) : IsPlain qop.token := by
  cases qop <;> decide

/-! ## The challenge -/

def challengeFields (d : DigestAuth) : List Field :=
  [Field.quoted "realm" d.realm, Field.quoted "nonce" d.nonce]
    ++ (d.qop.map fun qop => Field.quoted "qop" qop.token).toList

theorem challenge_eq {d : DigestAuth} (hdata : d.opaqueData = none) :
    d.challenge = writeFields (d.challengeFields.map (·.text)) := by
  unfold challenge challengeFields
  rw [hdata]
  cases d.qop <;> rfl

theorem wellFormed_challengeFields {d : DigestAuth} (hrealm : '"' ∉ d.realm.toList)
    (hnonce : '"' ∉ d.nonce.toList) : ∀ e ∈ d.challengeFields, e.WellFormed := by
  intro e he
  rcases List.mem_append.1 he with he | he
  · rcases List.mem_cons.1 he with rfl | he
    · exact Field.wellFormed_quoted (by decide) hrealm
    · rw [List.mem_singleton.1 he]
      exact Field.wellFormed_quoted (by decide) hnonce
  · obtain ⟨qop, -, rfl⟩ := Option.map_eq_some_iff.1 (Option.mem_toList.1 he)
    exact Field.wellFormed_quoted (by decide) (quote_not_mem_token qop)

theorem choose?_token (qop : Qop) : Qop.choose? qop.token = some qop := by
  cases qop <;> decide

/-- The client's side for a challenge of `d`. -/
def client (d : DigestAuth) (credentials : Credentials) (draws : Draws) : DigestAuth where
  credentials := credentials
  realm := d.realm
  nonce := d.nonce
  qop := d.qop
  clientNonce := hex 16 (draws.next UInt64.size).1

/-- A challenge makes a client with the server's realm, nonce and protection. -/
theorem ofChallenge_challenge {d : DigestAuth} (hdata : d.opaqueData = none)
    (hrealm : '"' ∉ d.realm.toList) (hnonce : '"' ∉ d.nonce.toList) (credentials : Credentials)
    (draws : Draws) :
    Authentication.ofChallenge credentials d.challenge draws
      = .ok (.digest (d.client credentials draws), (draws.next UInt64.size).2) := by
  have hfields := wellFormed_challengeFields hrealm hnonce
  have hne : d.challengeFields ≠ [] := List.cons_ne_nil _ _
  have hscheme : sameIgnoringCase "Digest" "basic" = false := by decide
  have hdigest : sameIgnoringCase "Digest" "digest" = true := by decide
  have hread : ofFields credentials (setFields {} d.challengeFields) draws
      = .ok (d.client credentials draws, (draws.next UInt64.size).2) := by
    have hempty : ∀ key, ({} : Params).get? key = none := fun _ => rfl
    unfold ofFields client challengeFields setFields
    cases hqop : d.qop with
    | none => simp [Field.quoted, Params.get?_insert, hempty]
    | some qop => simp [Field.quoted, Params.get?_insert, hempty, choose?_token]
  unfold Authentication.ofChallenge
  rw [challenge_eq hdata, splitScheme_writeFields hfields hne]
  simp only [readFields_joinFields hfields hne, hscheme, hdigest, hread]
  rfl

/-! ## The answer -/

def answerFields (d : DigestAuth) (count : UInt32) (r : Request) : List Field :=
  [Field.quoted "username" d.credentials.username, Field.quoted "realm" d.realm,
      Field.quoted "nonce" d.nonce, Field.quoted "uri" r.uri,
      Field.quoted "response" (d.responseHash d.credentials.username (d.protection? count)
        r.method.token r.uri r.body)]
    ++ match d.protection? count with
      | some p =>
        [Field.plain "qop" p.qop.token, Field.plain "nc" p.nonceCount,
          Field.quoted "cnonce" p.clientNonce]
      | none => []

/-- Nothing is repeated from the challenge but what is read back as it was. -/
structure IsWritable (d : DigestAuth) : Prop where
  opaqueData : d.opaqueData = none
  algorithm : d.algorithm = none
  username : '"' ∉ d.credentials.username.toList
  realm : '"' ∉ d.realm.toList
  nonce : '"' ∉ d.nonce.toList
  clientNonce : '"' ∉ d.clientNonce.toList

theorem isHexDigit_of_mem_responseHash {d : DigestAuth} {username : String}
    {protection : Option Protection} {method uri : String} {body : Bytes} :
    ∀ c ∈ (d.responseHash username protection method uri body).toList, IsHexDigit c := by
  intro c hc
  unfold responseHash hash at hc
  cases protection with
  | none => exact Md5.isHexDigit_of_mem_hexDigest hc
  | some p => exact Md5.isHexDigit_of_mem_hexDigest hc

section

variable {d : DigestAuth} {count : UInt32} {r : Request}

theorem answer_eq (hd : d.IsWritable) :
    d.answer count r.method.token r.uri r.body
      = writeFields ((d.answerFields count r).map (·.text)) := by
  unfold answer answerFields
  rw [hd.opaqueData, hd.algorithm]
  cases d.protection? count <;> rfl

theorem wellFormed_answerFields (hd : d.IsWritable) (huri : '"' ∉ r.uri.toList) :
    ∀ e ∈ d.answerFields count r, e.WellFormed := by
  have hresponse : '"' ∉ (d.responseHash d.credentials.username (d.protection? count)
      r.method.token r.uri r.body).toList :=
    quote_not_mem_hexDigits isHexDigit_of_mem_responseHash
  intro e he
  rcases List.mem_append.1 he with he | he
  · simp only [List.mem_cons, List.not_mem_nil, or_false] at he
    rcases he with rfl | rfl | rfl | rfl | rfl
    · exact Field.wellFormed_quoted (by decide) hd.username
    · exact Field.wellFormed_quoted (by decide) hd.realm
    · exact Field.wellFormed_quoted (by decide) hd.nonce
    · exact Field.wellFormed_quoted (by decide) huri
    · exact Field.wellFormed_quoted (by decide) hresponse
  · unfold protection? at he
    cases hqop : d.qop with
    | none =>
      rw [hqop] at he
      exact absurd he List.not_mem_nil
    | some qop =>
      rw [hqop] at he
      have hcount : (hex 8 count.toNat).toList ≠ [] := by
        have hlength : (hex 8 count.toNat).toList.length = 8 :=
          length_hex (by decide) count.toNat_lt
        intro hnil
        rw [hnil] at hlength
        exact absurd hlength (by decide)
      simp only [Option.map_some, List.mem_cons, List.not_mem_nil, or_false] at he
      rcases he with rfl | rfl | rfl
      · exact Field.wellFormed_plain (by decide) (isPlain_token qop)
      · refine Field.wellFormed_plain (by decide) (isPlain_hexDigits ?_ hcount)
        exact fun c hc => isHexDigit_of_mem_hex hc
      · exact Field.wellFormed_quoted (by decide) hd.clientNonce

/-- The protection that an answer claims is the one that it was made with. -/
theorem readProtection?_answerFields :
    readProtection? (setFields {} (d.answerFields count r)) = some (d.protection? count) := by
  have hempty : ∀ key, ({} : Params).get? key = none := fun _ => rfl
  have htoken : ∀ qop : Qop, Qop.ofToken? qop.token.toList = some qop := by
    intro qop
    cases qop <;> decide
  unfold readProtection? answerFields setFields
  cases hprotection : d.protection? count with
  | none => simp [Field.quoted, Params.get?_insert, hempty]
  | some p => simp [Field.quoted, Field.plain, Params.get?_insert, htoken]

theorem accepts_answerFields (server : DigestAuth) (r2 : Request) :
    server.accepts r2 (setFields {} (d.answerFields count r))
      = (sameIgnoringCase d.credentials.username server.credentials.username
        && d.realm == server.realm && d.nonce == server.nonce && r.uri == r2.uri
        && sameIgnoringCase
          (server.responseHash d.credentials.username (d.protection? count) r2.method.token r.uri
            r2.body)
          (d.responseHash d.credentials.username (d.protection? count) r.method.token r.uri
            r.body)) := by
  unfold accepts
  rw [readProtection?_answerFields]
  unfold answerFields setFields
  cases hprotection : d.protection? count with
  | none => simp [Field.quoted, Params.get?_insert]
  | some p => simp [Field.quoted, Field.plain, Params.get?_insert]

/-- A hash is written in lower case, so the case that its reader ignores makes no difference. -/
theorem sameIgnoringCase_hexDigits {s t : String} (hs : ∀ c ∈ s.toList, IsHexDigit c)
    (ht : ∀ c ∈ t.toList, IsHexDigit c) : sameIgnoringCase s t = true ↔ s = t := by
  unfold sameIgnoringCase
  rw [lower_of_isHexDigit hs, lower_of_isHexDigit ht]
  exact beq_iff_eq

/-- An answer is valid in a request for the same resource if user and hash agree. -/
theorem isValid_iff_responseHash_eq {server : DigestAuth} {r2 : Request} (hd : d.IsWritable)
    (huri : '"' ∉ r.uri.toList) (hrealm : d.realm = server.realm) (hnonce : d.nonce = server.nonce)
    (hcarried : r2.headers.get? "Authorization"
      = some (d.answer count r.method.token r.uri r.body)) :
    server.isValid r2 = true
      ↔ sameIgnoringCase d.credentials.username server.credentials.username = true
        ∧ r2.uri = r.uri
        ∧ server.responseHash d.credentials.username (d.protection? count) r2.method.token r.uri
            r2.body
          = d.responseHash d.credentials.username (d.protection? count) r.method.token r.uri
            r.body := by
  have hfields : ∀ e ∈ d.answerFields count r, e.WellFormed := wellFormed_answerFields hd huri
  have hne : d.answerFields count r ≠ [] := List.cons_ne_nil _ _
  have hscheme : sameIgnoringCase "Digest" "digest" = true := by decide
  unfold isValid
  rw [hcarried]
  simp only [answer_eq hd, splitScheme_writeFields hfields hne, readFields_joinFields hfields hne,
    accepts_answerFields, hscheme, hrealm, hnonce, Bool.true_and, Bool.and_eq_true,
    beq_self_eq_true, beq_iff_eq, and_true, and_assoc,
    sameIgnoringCase_hexDigits isHexDigit_of_mem_responseHash isHexDigit_of_mem_responseHash,
    eq_comm (a := r.uri)]

end

/-! ## Hashes -/

/-- The text that is hashed for the user. -/
def userText (d : DigestAuth) (username : String) : String :=
  username ++ ":" ++ d.realm ++ ":" ++ d.credentials.password

/-- The text that is hashed for the request. -/
def requestText (qop : Option Qop) (r : Request) : String :=
  match qop with
  | some .authInt => r.method.token ++ ":" ++ r.uri ++ ":" ++ Md5.hexDigest r.body
  | _ => r.method.token ++ ":" ++ r.uri

/-- What stands between the hash of the user and that of the request. -/
def middleText (d : DigestAuth) (protection : Option Protection) : String :=
  match protection with
  | some p => ":" ++ d.nonce ++ ":" ++ p.nonceCount ++ ":" ++ p.clientNonce ++ ":" ++ p.qop.token
      ++ ":"
  | none => ":" ++ d.nonce ++ ":"

/-- The text that is hashed to authorize a request. -/
def responseText (d : DigestAuth) (username : String) (protection : Option Protection)
    (r : Request) : String :=
  hash (d.userText username) ++ d.middleText protection
    ++ hash (requestText (protection.map (·.qop)) r)

theorem responseHash_eq (d : DigestAuth) (username : String) (protection : Option Protection)
    (r : Request) :
    d.responseHash username protection r.method.token r.uri r.body
      = hash (d.responseText username protection r) := by
  unfold responseHash responseText middleText requestText requestHash userText
  cases protection with
  | none => simp [String.append_assoc]
  | some p =>
    obtain ⟨qop, nonceCount, clientNonce⟩ := p
    cases qop <;> simp [String.append_assoc]

/-- Everything that is hashed for one request. -/
def hashInputs (d : DigestAuth) (username : String) (protection : Option Protection)
    (r : Request) : List Bytes :=
  [d.userText username, requestText (protection.map (·.qop)) r,
      d.responseText username protection r].map Utf8.encode
    ++ if protection.map (·.qop) = some .authInt then [r.body] else []

/-- Two different inputs at the same place have the same hash. -/
def Collide (inputs inputs' : List Bytes) : Prop :=
  ∃ pair ∈ inputs.zip inputs', pair.1 ≠ pair.2 ∧ Md5.hexDigest pair.1 = Md5.hexDigest pair.2

/-- The credentials and the requests agree in all that an authorization covers. -/
structure Fits (held given : Credentials) (qop : Option Qop) (r r2 : Request) : Prop where
  username : sameIgnoringCase given.username held.username = true
  password : given.password = held.password
  /-- A method is what its token says. -/
  method : r2.method.token = r.method.token
  uri : r2.uri = r.uri
  body : qop = some .authInt → r2.body = r.body

theorem length_hash (s : String) : (hash s).toList.length = 32 :=
  Md5.length_hexDigest _

theorem encode_injective {s t : String} (h : Utf8.encode s = Utf8.encode t) : s = t := by
  have hdecoded := congrArg Utf8.decodeLossy h
  rw [Utf8.decodeLossy_encode, Utf8.decodeLossy_encode] at hdecoded
  exact String.toList_injective hdecoded

/-- Hashes around the same text are told apart by their length. -/
theorem hash_append_inj {a b a' b' middle : String}
    (h : hash a ++ middle ++ hash b = hash a' ++ middle ++ hash b') :
    hash a = hash a' ∧ hash b = hash b' := by
  have hlist := congrArg String.toList h
  simp only [String.toList_append, List.append_assoc] at hlist
  obtain ⟨ha, hrest⟩ := List.append_inj hlist ((length_hash a).trans (length_hash a').symm)
  exact ⟨String.toList_injective ha, String.toList_injective (List.append_cancel_left hrest)⟩

theorem userText_inj {server client : DigestAuth} {username : String}
    (hrealm : client.realm = server.realm)
    (h : client.userText username = server.userText username) :
    client.credentials.password = server.credentials.password := by
  unfold userText at h
  rw [hrealm] at h
  have hlist := congrArg String.toList h
  simp only [String.toList_append] at hlist
  exact String.toList_injective (List.append_cancel_left hlist)

theorem requestText_inj {qop : Option Qop} {r r2 : Request} (huri : r2.uri = r.uri)
    (h : requestText qop r = requestText qop r2) :
    r2.method.token = r.method.token
      ∧ (qop = some .authInt → Md5.hexDigest r.body = Md5.hexDigest r2.body) := by
  have hlist := congrArg String.toList h
  unfold requestText at hlist
  rw [huri] at hlist
  split at hlist
  · -- The body enters as a hash, so what follows the method has the same length on both sides.
    simp only [String.toList_append, List.append_assoc] at hlist
    obtain ⟨htoken, hrest⟩ := List.append_inj' hlist (by simp [Md5.length_hexDigest])
    have hbody := List.append_cancel_left (List.append_cancel_left (List.append_cancel_left hrest))
    exact ⟨(String.toList_injective htoken).symm, fun _ => String.toList_injective hbody⟩
  · next hqop =>
    simp only [String.toList_append, List.append_assoc] at hlist
    have htoken := List.append_cancel_right hlist
    exact ⟨(String.toList_injective htoken).symm, fun hint => absurd hint hqop⟩

section

variable {server client : DigestAuth} {protection : Option Protection} {r r2 : Request}

/-- Where everything fits, both sides hash the same. -/
theorem Fits.responseText_eq
    (h : Fits server.credentials client.credentials server.qop r r2)
    (hrealm : client.realm = server.realm) (hnonce : client.nonce = server.nonce)
    (hqop : protection.map (·.qop) = server.qop) (username : String) :
    server.responseText username protection r2 = client.responseText username protection r := by
  have huser : server.userText username = client.userText username := by
    unfold userText
    rw [hrealm, h.password]
  have hmiddle : server.middleText protection = client.middleText protection := by
    unfold middleText
    rw [hnonce]
  have hrequest : requestText server.qop r2 = requestText server.qop r := by
    unfold requestText
    rw [h.method, h.uri]
    split
    · next hint => rw [h.body hint]
    · rfl
  unfold responseText
  rw [huser, hmiddle, hqop, hrequest]

/-- Where both sides get the same hash, everything fits, or somewhere on the way different inputs
have the same hash. -/
theorem fits_or_collide {username : String} (hrealm : client.realm = server.realm)
    (hnonce : client.nonce = server.nonce) (hqop : protection.map (·.qop) = server.qop)
    (hname : sameIgnoringCase client.credentials.username server.credentials.username = true)
    (huri : r2.uri = r.uri)
    (hhash : hash (client.responseText username protection r)
      = hash (server.responseText username protection r2)) :
    Fits server.credentials client.credentials server.qop r r2
      ∨ Collide (client.hashInputs username protection r)
        (server.hashInputs username protection r2) := by
  by_cases hcollide : Collide (client.hashInputs username protection r)
    (server.hashInputs username protection r2)
  · exact .inr hcollide
  · have hinput : ∀ {a b : Bytes}, (a, b) ∈ (client.hashInputs username protection r).zip
        (server.hashInputs username protection r2) → Md5.hexDigest a = Md5.hexDigest b → a = b := by
      intro a b hmem heq
      exact Decidable.byContradiction fun hne => hcollide ⟨(a, b), hmem, hne, heq⟩
    have htext : ∀ {s t : String}, (Utf8.encode s, Utf8.encode t)
        ∈ (client.hashInputs username protection r).zip (server.hashInputs username protection r2) →
        hash s = hash t → s = t := by
      intro s t hmem heq
      exact encode_injective (hinput hmem heq)
    have hmiddle : client.middleText protection = server.middleText protection := by
      unfold middleText
      rw [hnonce]
    have hresponse := htext (by simp [hashInputs]) hhash
    unfold responseText at hresponse
    rw [hmiddle] at hresponse
    obtain ⟨huser, hrequest⟩ := hash_append_inj hresponse
    have hpassword := userText_inj hrealm (htext (by simp [hashInputs]) huser)
    obtain ⟨hmethod, hbody⟩ := requestText_inj huri (htext (by simp [hashInputs]) hrequest)
    refine .inl ⟨hname, hpassword, hmethod, huri, fun hint => ?_⟩
    have hint' : protection.map (·.qop) = some .authInt := hqop.trans hint
    exact (hinput (by simp [hashInputs, hint']) (hbody hint')).symm

end

end DigestAuth

namespace Authentication

open DigestAuth

/-! ## Requests -/

/-- The state after authorizing requests. -/
def after (a : Authentication) (earlier : List Request) : Authentication :=
  earlier.foldl (fun a r => (a.authorize r).1) a

/-- Authorizing requests moves the counter and nothing else. -/
theorem after_digest (d : DigestAuth) (earlier : List Request) :
    (digest d).after earlier
      = digest { d with nonceCount := d.nonceCount + UInt32.ofNat earlier.length } := by
  induction earlier generalizing d with
  | nil => simp [after]
  | cons r earlier ih =>
    have hcount : d.nonceCount + 1 + UInt32.ofNat earlier.length
        = d.nonceCount + UInt32.ofNat (earlier.length + 1) := by
      rw [UInt32.ofNat_add, UInt32.add_assoc, UInt32.add_comm 1]
      rfl
    exact (ih { d with nonceCount := d.nonceCount + 1 }).trans (by rw [hcount]; rfl)

/-- The next request gets the answer that an unused client gives for its number. -/
theorem authorize_after (d : DigestAuth) (earlier : List Request) (r : Request) :
    (((digest d).after earlier).authorize r).2
      = r.setHeader "Authorization"
        (d.answer (d.nonceCount + UInt32.ofNat (earlier.length + 1)) r.method.token r.uri
          r.body) := by
  have hcount : d.nonceCount + UInt32.ofNat (earlier.length + 1)
      = d.nonceCount + UInt32.ofNat earlier.length + 1 := by
    rw [UInt32.ofNat_add, UInt32.add_assoc]
    rfl
  rw [after_digest, hcount]
  rfl

theorem get?_authorize_after (d : DigestAuth) (earlier : List Request) (r : Request) :
    (((digest d).after earlier).authorize r).2.headers.get? "Authorization"
      = some (d.answer (d.nonceCount + UInt32.ofNat (earlier.length + 1)) r.method.token r.uri
        r.body) := by
  rw [authorize_after]
  exact Headers.get?_set_self _ _ _

/-- What the two sides have in common decides about an answer, up to collisions. -/
theorem isValid_of_carried {server client : DigestAuth} (hclient : client.IsWritable)
    (hrealm : client.realm = server.realm) (hnonce : client.nonce = server.nonce)
    (hqop : client.qop = server.qop) {count : UInt32} {r r2 : Request} (huri : '"' ∉ r.uri.toList)
    (hcarried : r2.headers.get? "Authorization"
      = some (client.answer count r.method.token r.uri r.body)) :
    (Fits server.credentials client.credentials server.qop r r2 → server.isValid r2 = true)
      ∧ (server.isValid r2 = true → Fits server.credentials client.credentials server.qop r r2
        ∨ Collide (client.hashInputs client.credentials.username (client.protection? count) r)
          (server.hashInputs client.credentials.username (client.protection? count) r2)) := by
  have hprotection : (client.protection? count).map (·.qop) = server.qop := by
    unfold protection?
    rw [Option.map_map, ← hqop]
    exact congrFun Option.map_id _
  have hiff := isValid_iff_responseHash_eq hclient huri hrealm hnonce hcarried
  constructor
  · intro hfits
    refine hiff.2 ⟨hfits.username, hfits.uri, ?_⟩
    have htext := hfits.responseText_eq hrealm hnonce hprotection client.credentials.username
    rw [← hfits.uri, responseHash_eq, htext, hfits.uri, responseHash_eq]
  · intro hvalid
    obtain ⟨hname, huri', hhash⟩ := hiff.1 hvalid
    rw [responseHash_eq, ← huri', responseHash_eq] at hhash
    exact fits_or_collide hrealm hnonce hprotection hname huri' hhash.symm

/-- An authorization is accepted with the credentials and the request that it was made for. With
others it is accepted only if different inputs have the same hash. -/
theorem isValid_authorize (credentials credentials' : Credentials) (realm : String)
    (qop : Option Qop) (draws draws' : Draws) (hrealm : '"' ∉ realm.toList)
    (hname : '"' ∉ credentials'.username.toList) :
    let server := (DigestAuth.server credentials realm qop draws).1
    ∃ client rest, ofChallenge credentials' server.challenge draws' = .ok (.digest client, rest)
      ∧ ∀ (earlier : List Request) (r r2 : Request), '"' ∉ r.uri.toList →
        r2.headers.get? "Authorization"
          = (((digest client).after earlier).authorize r).2.headers.get? "Authorization" →
        (Fits credentials credentials' qop r r2 → server.isValid r2 = true)
          ∧ (server.isValid r2 = true → Fits credentials credentials' qop r r2
            ∨ let protection := client.protection? (UInt32.ofNat (earlier.length + 1))
              Collide (client.hashInputs credentials'.username protection r)
                (server.hashInputs credentials'.username protection r2)) := by
  intro server
  have hnonce : '"' ∉ server.nonce.toList :=
    quote_not_mem_hexDigits fun c hc => isHexDigit_of_mem_hex hc
  have hclient : (server.client credentials' draws').IsWritable :=
    ⟨rfl, rfl, hname, hrealm, hnonce, quote_not_mem_hexDigits fun c hc => isHexDigit_of_mem_hex hc⟩
  refine ⟨server.client credentials' draws', _,
    ofChallenge_challenge rfl hrealm hnonce credentials' draws', ?_⟩
  intro earlier r r2 huri hcarried
  rw [get?_authorize_after] at hcarried
  have hcount : (server.client credentials' draws').nonceCount + UInt32.ofNat (earlier.length + 1)
      = UInt32.ofNat (earlier.length + 1) := UInt32.zero_add _
  have hsame : (server.client credentials' draws').realm = server.realm := rfl
  have hvalid := isValid_of_carried hclient hsame rfl rfl huri hcarried
  rw [hcount] at hvalid
  exact hvalid

/-- The second request of a client that spells the user's name in its own way. -/
theorem isValid_authorize_second :
    let server := (DigestAuth.server ⟨"admin", "secret"⟩ "cam" (some .authInt) [5]).1
    let first : Request := { method := .options, uri := "*" }
    let second : Request := { method := .announce, uri := "rtsp://cam/live", body := [118, 61, 48] }
    '"' ∉ "cam".toList ∧ '"' ∉ "Admin".toList ∧ '"' ∉ second.uri.toList
      ∧ ∃ client rest,
        ofChallenge ⟨"Admin", "secret"⟩ server.challenge [7] = .ok (.digest client, rest)
          ∧ Fits ⟨"admin", "secret"⟩ ⟨"Admin", "secret"⟩ (some .authInt) second
            (((digest client).after [first]).authorize second).2
          ∧ server.isValid (((digest client).after [first]).authorize second).2 = true := by
  intro server first second
  obtain ⟨client, rest, hclient, hvalid⟩ := isValid_authorize ⟨"admin", "secret"⟩
    ⟨"Admin", "secret"⟩ "cam" (some .authInt) [5] [7] (by decide) (by decide)
  have hfits : Fits ⟨"admin", "secret"⟩ ⟨"Admin", "secret"⟩ (some .authInt) second
      (((digest client).after [first]).authorize second).2 :=
    ⟨by decide, rfl, rfl, rfl, fun _ => rfl⟩
  refine ⟨by decide, by decide, by decide, client, rest, hclient, hfits, ?_⟩
  exact (hvalid [first] second _ (by decide) rfl).1 hfits

end Authentication
end Rtsp
