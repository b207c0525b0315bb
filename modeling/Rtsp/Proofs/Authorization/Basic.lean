-- SUMMARY: Basic authentication accepts the right credentials and nothing else.
import Rtsp.Authorization
import Rtsp.Proofs.Message.Headers
import Rtsp.Proofs.Text.Base64
import Rtsp.Proofs.Text.Utf8

/-!
# Basic authentication

Neither Base64 nor UTF-8 has two forms of one text, so there is one token for each pair of a user
name without a colon and a password (`BasicAuth.readCredentials?_eq_some_iff`). A server reads the
credentials of a client as they are, and whatever it accepts presents its own credentials
(`BasicAuth.isValid_iff`).
-/

namespace Rtsp

open Text

/-! ## Tokens -/

namespace Credentials

/-- What stands behind the scheme. -/
def token (c : Credentials) : List Char :=
  Base64.encode (Utf8.encode (c.username ++ ":" ++ c.password))

/-- The colon is there even if user and password are empty. -/
theorem isWord_token (c : Credentials) : IsWord c.token := by
  have hcolon : Utf8.encode (c.username ++ ":" ++ c.password) ≠ [] := by
    have hone : Utf8.encode ":" ≠ [] := by decide
    simp [hone]
  exact ⟨Base64.encode_ne_nil hcolon, fun _ hmem => (Base64.not_blank_of_mem_encode hmem).1⟩

end Credentials

namespace BasicAuth

/-! ## What a value presents -/

/-- The scheme in any case, a space, and the token of `c`, with white space around the value and
around the token. -/
def Presents (value : String) (c : Credentials) : Prop :=
  ∃ (scheme : String) (token : List Char),
    trim value.toList = scheme.toList ++ ' ' :: token
      ∧ sameIgnoringCase scheme "basic" = true
      ∧ trim token = c.token
      ∧ ':' ∉ c.username.toList

theorem space_not_mem_scheme {scheme : String} (h : sameIgnoringCase scheme "basic" = true) :
    ' ' ∉ scheme.toList := by
  intro hmem
  have hlower : ' ' ∈ (lower scheme).toList := by
    rw [lower, String.toList_ofList]
    exact List.mem_map.2 ⟨' ', hmem, by decide⟩
  rw [beq_iff_eq.1 h] at hlower
  exact absurd hlower (by decide)

/-- Credentials are read from the values that present them. -/
theorem readCredentials?_eq_some_iff {value : String} {c : Credentials} :
    readCredentials? value = some c ↔ Presents value c := by
  constructor
  · intro hread
    obtain ⟨⟨scheme, token⟩, hcut, hread⟩ := Option.bind_eq_some_iff.1 hread
    obtain ⟨hscheme, hread⟩ := Option.ite_none_right_eq_some.1 hread
    obtain ⟨bytes, hbytes, hread⟩ := Option.bind_eq_some_iff.1 hread
    obtain ⟨text, htext, hread⟩ := Option.bind_eq_some_iff.1 hread
    obtain ⟨⟨username, password⟩, hcolon, hread⟩ := Option.bind_eq_some_iff.1 hread
    obtain rfl := Option.some.inj hread
    obtain ⟨hname, rfl⟩ := eq_append_of_cut hcolon
    refine ⟨String.ofList scheme, token, ?_, hscheme, ?_, ?_⟩
    · rw [String.toList_ofList]
      exact (eq_append_of_cut hcut).2
    · have htoken : String.ofList (username ++ ':' :: password)
          = String.ofList username ++ ":" ++ String.ofList password := by
        apply String.toList_inj.1
        simp
      rw [Base64.eq_encode_of_decode? hbytes, Utf8.eq_encode_of_decode? htext, htoken]
      rfl
    · rwa [String.toList_ofList]
  · rintro ⟨scheme, token, hvalue, hscheme, htoken, hname⟩
    have htext : (c.username ++ ":" ++ c.password).toList
        = c.username.toList ++ ':' :: c.password.toList := by
      simp
    unfold readCredentials?
    rw [hvalue, cut_append (space_not_mem_scheme hscheme)]
    simp only [Option.bind_eq_bind, Option.bind_some, String.ofList_toList, hscheme, if_true,
      htoken, Credentials.token, Base64.decode?_encode, Utf8.decode?_encode, htext,
      cut_append hname]

/-- A client presents its own credentials. -/
theorem presents_answer {b : BasicAuth} (hname : ':' ∉ b.credentials.username.toList) :
    Presents b.answer b.credentials := by
  have htext : b.answer.toList = "Basic".toList ++ ([' '] ++ b.credentials.token) := by
    unfold answer
    simp [Credentials.token]
  have hscheme : IsFramed "Basic".toList :=
    ⟨⟨'B', by decide, by decide⟩, ⟨'c', by decide, by decide⟩⟩
  refine ⟨"Basic", b.credentials.token, ?_, by decide, ?_, hname⟩
  · rw [htext]
    exact (hscheme.append b.credentials.isWord_token.isFramed [' ']).trim_eq
  · exact b.credentials.isWord_token.isFramed.trim_eq

/-! ## What is accepted -/

theorem isValid_iff {b : BasicAuth} {r : Request} :
    b.isValid r = true ↔ ∃ value c, r.headers.get? "Authorization" = some value
      ∧ Presents value c ∧ sameIgnoringCase c.username b.credentials.username = true
      ∧ c.password = b.credentials.password := by
  have hread : ∀ c, (r.headers.get? "Authorization").bind readCredentials? = some c
      ↔ ∃ value, r.headers.get? "Authorization" = some value ∧ Presents value c := by
    intro c
    simp only [Option.bind_eq_some_iff, readCredentials?_eq_some_iff]
  unfold isValid
  split
  next c hc =>
    obtain ⟨value, hvalue, hpresents⟩ := (hread c).1 hc
    rw [Bool.and_eq_true, beq_iff_eq]
    constructor
    · rintro ⟨husername, hpassword⟩
      exact ⟨value, c, hvalue, hpresents, husername, hpassword⟩
    · rintro ⟨value', c', hvalue', hpresents', husername, hpassword⟩
      obtain rfl : c = c' := Option.some.inj (hc.symm.trans ((hread c').2 ⟨_, hvalue', hpresents'⟩))
      exact ⟨husername, hpassword⟩
  next hnone =>
    constructor
    · intro hfalse
      cases hfalse
    · rintro ⟨value, c, hvalue, hpresents, -⟩
      cases hnone.symm.trans ((hread c).2 ⟨value, hvalue, hpresents⟩)

end BasicAuth

namespace Authentication

/-- An answer is accepted for the right credentials and for no others; and nothing is accepted that
does not present the right ones. -/
theorem isValid_authorize_basic (server client : BasicAuth)
    (hname : ':' ∉ client.credentials.username.toList) :
    (∀ r r2 : Request, r2.headers.get? "Authorization"
        = ((basic client).authorize r).2.headers.get? "Authorization" →
      ((basic server).isValid r2 = true
        ↔ sameIgnoringCase client.credentials.username server.credentials.username = true
          ∧ client.credentials.password = server.credentials.password))
      ∧ (∀ r : Request, (basic server).isValid r = true
        ↔ ∃ value c, r.headers.get? "Authorization" = some value ∧ BasicAuth.Presents value c
          ∧ sameIgnoringCase c.username server.credentials.username = true
          ∧ c.password = server.credentials.password)
      ∧ ∀ bytes, Base64.decode? (Base64.encode bytes) = some bytes := by
  refine ⟨?_, fun r => BasicAuth.isValid_iff, Base64.decode?_encode⟩
  intro r r2 hcarried
  have hvalue : r2.headers.get? "Authorization" = some client.answer :=
    hcarried.trans (Headers.get?_set_self _ _ _)
  have hread : BasicAuth.readCredentials? client.answer = some client.credentials :=
    BasicAuth.readCredentials?_eq_some_iff.2 (BasicAuth.presents_answer hname)
  have hvalid : server.isValid r2
      = (sameIgnoringCase client.credentials.username server.credentials.username
        && client.credentials.password == server.credentials.password) := by
    rw [BasicAuth.isValid, hvalue, Option.bind_some, hread]
  rw [isValid, hvalid, Bool.and_eq_true, beq_iff_eq]

/-- A password that begins and ends with colons, for a user who is spelt in another way. -/
theorem isValid_authorize_basic_colons :
    let server : BasicAuth := ⟨⟨"admin", ":p:ss:"⟩, "cam"⟩
    let client : BasicAuth := ⟨⟨"Admin", ":p:ss:"⟩, ""⟩
    let request : Request := { method := .options, uri := "*" }
    ':' ∉ client.credentials.username.toList
      ∧ (basic server).isValid ((basic client).authorize request).2 = true := by
  intro server client request
  refine ⟨by decide, ?_⟩
  exact ((isValid_authorize_basic server client (by decide)).1 request _ rfl).2
    ⟨by decide, by decide⟩

end Authentication
end Rtsp
