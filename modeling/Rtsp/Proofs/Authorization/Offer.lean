-- SUMMARY: An authorization is checked under the protection that the request names.
import Rtsp.Proofs.Authorization.Answer

/-!
# The protection that counts

A server offers a quality of protection in its challenge, and does not look at its offer again. What
it checks is decided by the request, which names a quality or none (`DigestAuth.isValid_named`). The
body is protected where the request names `auth-int`, so a client that names something weaker than
the offer is accepted as well (`DigestAuth.isValid_answered`).
-/

namespace Rtsp

open Text Authorization

/-! ## Named protection -/

/-- A token names a quality, in any case and with blanks around it. -/
def Qop.IsNamedBy (qop : Qop) (token : String) : Prop :=
  sameIgnoringCase (String.ofList (trim token.toList)) qop.token = true

theorem Qop.ofToken?_eq_some_iff {qop : Qop} {token : String} :
    ofToken? token.toList = some qop ↔ qop.IsNamedBy token := by
  have hdistinct {s : String} (hauth : sameIgnoringCase s "auth" = true) :
      sameIgnoringCase s "auth-int" = false := by
    rw [Bool.eq_false_iff]
    intro hint
    have hsame := (beq_iff_eq.1 hauth).symm.trans (beq_iff_eq.1 hint)
    exact absurd hsame (by decide)
  unfold ofToken? IsNamedBy
  cases qop with
  | auth => simp [Qop.token]
  | authInt =>
    dsimp only [Qop.token]
    split
    next hauth => simp [hdistinct hauth]
    next => simp

/-- The fields name no protection, or a quality together with the two values that it needs. -/
def Protection.IsNamedBy (field : String → Option String) : Option Protection → Prop
  | none => field "qop" = none
  | some p =>
    (∃ token, field "qop" = some token ∧ p.qop.IsNamedBy token)
      ∧ field "nc" = some p.nonceCount ∧ field "cnonce" = some p.clientNonce

namespace DigestAuth

theorem readProtection?_eq_some_iff {fields : Params} {protection : Option Protection} :
    readProtection? fields = some protection
      ↔ Protection.IsNamedBy fields.get? protection := by
  unfold readProtection?
  cases hqop : fields.get? "qop" with
  | none => cases protection <;> simp [Protection.IsNamedBy, hqop]
  | some token =>
    cases protection with
    | none => simp [Protection.IsNamedBy, hqop, Option.bind_eq_some_iff]
    | some p =>
      obtain ⟨qop, count, nonce⟩ := p
      simp [Protection.IsNamedBy, hqop, Option.bind_eq_some_iff, Qop.ofToken?_eq_some_iff]

/-! ## Accepted authorizations -/

/-- An authorization that fits the server which checks it and the request which carries it. -/
structure Grants (d : DigestAuth) (r : Request) (username response : String)
    (protection : Option Protection) : Prop where
  scheme : ∃ value, r.headers.get? "Authorization" = some value
    ∧ sameIgnoringCase (splitScheme value).1 "digest" = true
  username_eq : r.authorizationField? "username" = some username
  user : sameIgnoringCase username d.credentials.username = true
  realm : r.authorizationField? "realm" = some d.realm
  nonce : r.authorizationField? "nonce" = some d.nonce
  uri : r.authorizationField? "uri" = some r.uri
  response_eq : r.authorizationField? "response" = some response
  /-- The hash covers what the request names, whatever was offered. -/
  named : Protection.IsNamedBy r.authorizationField? protection
  hash : sameIgnoringCase (d.responseHash username protection r.method.token r.uri r.body) response
    = true

variable {d : DigestAuth} {r : Request} {username response : String}
  {protection : Option Protection}

theorem isValid_of_grants (h : d.Grants r username response protection) (body : Bytes) :
    d.isValid { r with body := body }
      = sameIgnoringCase (d.responseHash username protection r.method.token r.uri body)
        response := by
  obtain ⟨value, hvalue, hscheme⟩ := h.scheme
  have hfield (key : String) :
      r.authorizationField? key = (readFields (splitScheme value).2).get? key := by
    rw [Request.authorizationField?, hvalue, Option.bind_some]
  have hnamed : readProtection? (readFields (splitScheme value).2) = some protection := by
    rw [readProtection?_eq_some_iff, ← funext hfield]
    exact h.named
  unfold isValid accepts
  simp only [hvalue, hscheme, hnamed, ← hfield, h.username_eq, h.realm, h.nonce, h.uri,
    h.response_eq, h.user, beq_self_eq_true, Bool.true_and]

theorem grants_of_isValid (h : d.isValid r = true) :
    ∃ username response protection, d.Grants r username response protection := by
  unfold isValid at h
  split at h
  next => cases h
  next value hvalue =>
    have hfield (key : String) :
        r.authorizationField? key = (readFields (splitScheme value).2).get? key := by
      rw [Request.authorizationField?, hvalue, Option.bind_some]
    obtain ⟨hscheme, haccepts⟩ : sameIgnoringCase (splitScheme value).1 "digest" = true
        ∧ d.accepts r (readFields (splitScheme value).2) = true := Bool.and_eq_true_iff.1 h
    unfold accepts at haccepts
    split at haccepts
    next username realm nonce uri response husername hrealm hnonce huri hresponse =>
      simp only [Bool.and_eq_true, beq_iff_eq] at haccepts
      obtain ⟨⟨⟨⟨huser, rfl⟩, rfl⟩, rfl⟩, hhash⟩ := haccepts
      split at hhash
      next protection hnamed =>
        refine ⟨username, response, protection, ?_⟩
        rw [readProtection?_eq_some_iff, ← funext hfield] at hnamed
        exact ⟨⟨value, hvalue, hscheme⟩, (hfield _).trans husername, huser, (hfield _).trans hrealm,
          (hfield _).trans hnonce, (hfield _).trans huri, (hfield _).trans hresponse, hnamed, hhash⟩
      next => cases hhash
    next => cases haccepts

/-! ## Bodies -/

theorem responseHash_of_unprotected (h : protection.map (·.qop) ≠ some .authInt)
    (d : DigestAuth) (username method uri : String) (body body' : Bytes) :
    d.responseHash username protection method uri body
      = d.responseHash username protection method uri body' := by
  have hrequest : requestHash (protection.map (·.qop)) method uri body
      = requestHash (protection.map (·.qop)) method uri body' := by
    unfold requestHash
    split
    next hint => exact absurd hint h
    next => rfl
  unfold responseHash
  rw [hrequest]

/-- A protected body is not exchanged, unless different inputs have the same hash. -/
theorem body_eq_or_collide (hint : protection.map (·.qop) = some .authInt) {body : Bytes}
    (hhash : d.responseHash username protection r.method.token r.uri r.body
      = d.responseHash username protection r.method.token r.uri body) :
    body = r.body ∨ Collide (d.hashInputs username protection r)
      (d.hashInputs username protection { r with body := body }) := by
  -- As if what the request names had been offered, on both sides.
  let named : DigestAuth := { d with qop := protection.map (·.qop) }
  have hresponse : hash (named.responseText username protection r)
      = hash (named.responseText username protection { r with body := body }) := by
    rw [← responseHash_eq, ← responseHash_eq]
    exact hhash
  have hname : sameIgnoringCase named.credentials.username named.credentials.username = true :=
    beq_self_eq_true _
  have hcases : Fits named.credentials named.credentials named.qop r { r with body := body }
      ∨ Collide (named.hashInputs username protection r)
        (named.hashInputs username protection { r with body := body }) :=
    fits_or_collide rfl rfl rfl hname rfl hresponse
  exact hcases.imp_left fun hfits => hfits.body hint

theorem isValid_offering (d : DigestAuth) (r : Request) (offered : Option Qop) :
    { d with qop := offered }.isValid r = d.isValid r := by
  unfold isValid accepts responseHash
  dsimp only

/-- The offer plays no part in what is accepted. An accepted authorization fits under the protection
that the request names, and this decides whether another body is accepted in its place. -/
theorem isValid_named (d : DigestAuth) (r : Request) :
    (∀ offered, { d with qop := offered }.isValid r = d.isValid r)
      ∧ (d.isValid r = true → ∃ username response protection,
        d.Grants r username response protection
          ∧ ∀ body : Bytes,
            (protection.map (·.qop) ≠ some .authInt → d.isValid { r with body := body } = true)
              ∧ (protection.map (·.qop) = some .authInt →
                d.isValid { r with body := body } = true →
                body = r.body ∨ Collide (d.hashInputs username protection r)
                  (d.hashInputs username protection { r with body := body }))) := by
  refine ⟨fun offered => isValid_offering d r offered, fun hvalid => ?_⟩
  obtain ⟨username, response, protection, hgrants⟩ := grants_of_isValid hvalid
  refine ⟨username, response, protection, hgrants, fun body => ⟨fun hplain => ?_, ?_⟩⟩
  · rw [isValid_of_grants hgrants, responseHash_of_unprotected hplain d username _ _ body r.body]
    exact hgrants.hash
  · intro hint hother
    rw [isValid_of_grants hgrants] at hother
    apply body_eq_or_collide hint
    -- Both hashes are the response but for its case, and hashes are written in lower case.
    rw [← sameIgnoringCase_hexDigits isHexDigit_of_mem_responseHash isHexDigit_of_mem_responseHash]
    exact beq_iff_eq.2 ((beq_iff_eq.1 hgrants.hash).trans (beq_iff_eq.1 hother).symm)

/-- An answer under the protection that was offered. -/
theorem isValid_named_as_offered :
    let server := (DigestAuth.server ⟨"admin", "secret"⟩ "cam" (some .authInt) [5]).1
    let client := server.client ⟨"admin", "secret"⟩ [7]
    let r : Request := { method := .announce, uri := "rtsp://cam/live", body := [118, 61, 48] }
    let answered := r.setHeader "Authorization" (client.answer 1 r.method.token r.uri r.body)
    server.isValid answered = true
      ∧ ∃ username response protection, server.Grants answered username response protection
        ∧ ∀ body : Bytes,
          (protection.map (·.qop) ≠ some .authInt → server.isValid { answered with body := body })
            ∧ (protection.map (·.qop) = some .authInt →
              server.isValid { answered with body := body } = true →
              body = answered.body ∨ Collide (server.hashInputs username protection answered)
                (server.hashInputs username protection { answered with body := body })) := by
  intro server client r answered
  have hclient : client.IsClientOf server [7] :=
    isClientOf_server (by decide) (by decide) (some .authInt) [5] [7]
  have hvalid : server.isValid answered = true :=
    hclient.valid (by decide) (Headers.get?_set_self _ _ _) rfl rfl rfl
  exact ⟨hvalid, (isValid_named server answered).2 hvalid⟩

/-! ## Offers that are not taken -/

/-- A request that carries the answer of a client to it, and then another body. -/
def answered (client : DigestAuth) (count : UInt32) (r : Request) (body : Bytes) : Request :=
  { r.setHeader "Authorization" (client.answer count r.method.token r.uri r.body) with
    body := body }

section

variable {server client : DigestAuth} {count : UInt32} {r : Request} {body : Bytes}
  (hclient : client.IsWritable) (huri : '"' ∉ r.uri.toList)

theorem get?_answered :
    (client.answered count r body).headers.get? "Authorization"
      = some (client.answer count r.method.token r.uri r.body) :=
  Headers.get?_set_self _ _ _

include hclient huri

/-- The quality that an answer names is the client's. -/
theorem qop_answered :
    (client.answered count r body).authorizationField? "qop" = client.qop.map (·.token) := by
  rw [authorizationField?_eq hclient huri get?_answered]
  unfold answerFields setFields protection?
  cases client.qop with
  | none =>
    have hempty : ({} : Params).get? "qop" = none := rfl
    simp [Field.quoted, Params.get?_insert, hempty]
  | some qop => simp [Field.quoted, Field.plain, Params.get?_insert]

/-- A server accepts the answer of a client that holds its credentials, whatever quality the client
names. Unless it names `auth-int`, the body may be another one. -/
theorem isValid_answered (hcredentials : client.credentials = server.credentials)
    (hrealm : client.realm = server.realm) (hnonce : client.nonce = server.nonce)
    (hbody : client.qop = some .authInt → body = r.body) :
    server.isValid (client.answered count r body) = true := by
  rw [isValid_iff_responseHash_eq hclient huri hrealm hnonce get?_answered]
  refine ⟨?_, rfl, ?_⟩
  · rw [hcredentials]
    exact beq_self_eq_true _
  · have hsides : server.responseHash client.credentials.username (client.protection? count)
          r.method.token r.uri body
        = client.responseHash client.credentials.username (client.protection? count)
          r.method.token r.uri body := by
      unfold responseHash
      rw [hcredentials, hrealm, hnonce]
    refine hsides.trans ?_
    by_cases hint : client.qop = some .authInt
    · rw [hbody hint]
    · apply responseHash_of_unprotected
      unfold protection?
      rw [Option.map_map]
      simpa [Function.comp_def] using hint

end

/-- Offered is `auth-int`, and named are `auth` and nothing at all. Neither covers the body. -/
theorem isValid_weaker_than_offered :
    let server := (DigestAuth.server ⟨"admin", "secret"⟩ "cam" (some .authInt) [5]).1
    let plain : DigestAuth := { server with qop := some .auth, clientNonce := "7" }
    let legacy : DigestAuth := { server with qop := none }
    let r : Request := { method := .announce, uri := "rtsp://cam/live", body := [118, 61, 48] }
    server.qop = some .authInt
      ∧ (plain.answered 1 r r.body).authorizationField? "qop" = some "auth"
      ∧ server.isValid (plain.answered 1 r r.body) = true
      ∧ server.isValid (plain.answered 1 r [120]) = true
      ∧ (legacy.answered 1 r r.body).authorizationField? "qop" = none
      ∧ server.isValid (legacy.answered 1 r r.body) = true
      ∧ server.isValid (legacy.answered 1 r [120]) = true := by
  intro server plain legacy r
  have hplain : plain.IsWritable := ⟨rfl, rfl, by decide, by decide, by decide, by decide⟩
  have hlegacy : legacy.IsWritable := ⟨rfl, rfl, by decide, by decide, by decide, by decide⟩
  have huri : '"' ∉ r.uri.toList := by decide
  refine ⟨rfl, qop_answered hplain huri, ?_, ?_, qop_answered hlegacy huri, ?_, ?_⟩
  · exact isValid_answered hplain huri rfl rfl rfl fun _ => rfl
  · exact isValid_answered hplain huri rfl rfl rfl nofun
  · exact isValid_answered hlegacy huri rfl rfl rfl fun _ => rfl
  · exact isValid_answered hlegacy huri rfl rfl rfl nofun

end DigestAuth
end Rtsp
