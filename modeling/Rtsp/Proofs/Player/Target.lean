-- SUMMARY: User information in a URL reaches neither the address nor the URL that is sent.
import Rtsp.Player.Target
import Rtsp.Proofs.Text.Words

/-!
# Targets

A URL is cut four times: at the first slash, at the last at sign in front of it, at the first colon
in front of that, and at the last colon of the host. Whatever other separators stand in the parts,
the user information comes apart into the user name and the password, and what remains is read as if
there had been none (`Target.ofUrl?_userInfo`).
-/

namespace Rtsp.Target

open Text

/-! ## The parts of a URL -/

/-- A user name and a password whose place in a URL is plain. -/
structure IsUserInfo (user password : String) : Prop where
  colon : ':' ∉ user.toList
  slash : '/' ∉ user.toList
  password : '/' ∉ password.toList

/-- A host, perhaps in brackets and perhaps with a port. -/
structure IsHost (host : String) : Prop where
  ne_empty : host ≠ ""
  slash : '/' ∉ host.toList
  atSign : '@' ∉ host.toList

def IsPath (path : String) : Prop :=
  path = "" ∨ path.toList.head? = some '/'

/-- Behind the last colon stands a port. -/
def EndsInPort (host : String) : Prop :=
  ∃ name port, host.toList = name ++ ':' :: port ∧ ':' ∉ port ∧ (readUInt16 port).isSome

theorem hasPort_iff (host : String) : hasPort host.toList = true ↔ EndsInPort host := by
  unfold hasPort
  constructor
  · intro hport
    split at hport
    next name port hcut =>
      obtain ⟨hcolon, hhost⟩ := eq_append_of_cutLast hcut
      exact ⟨name, port, hhost, hcolon, hport⟩
    next => cases hport
  · rintro ⟨name, port, hhost, hcolon, hport⟩
    rwa [hhost, cutLast_append hcolon]

/-- The authority ends where the path begins. -/
theorem authority_append_path {authority path : List Char} (h : '/' ∉ authority)
    (hpath : path = [] ∨ path.head? = some '/') :
    (authority ++ path).takeWhile (· != '/') = authority
      ∧ (authority ++ path).dropWhile (· != '/') = path := by
  have hauthority : ∀ c ∈ authority, (c != '/') = true := by
    intro c hc
    simpa using ne_of_mem_of_not_mem hc h
  rw [List.takeWhile_append_of_pos hauthority, List.dropWhile_append_of_pos hauthority]
  rcases hpath with rfl | hslash
  · simp
  · obtain ⟨rest, rfl⟩ := List.head?_eq_some_iff.1 hslash
    simp

/-- The credentials and the host that an authority holds. -/
def readAuthority (authority : List Char) : Option Credentials × List Char :=
  match cutLast '@' authority with
  | some (info, host) => (some (readUserInfo info), host)
  | none => (none, authority)

theorem readAuthority_host {host : String} (h : IsHost host) :
    readAuthority host.toList = (none, host.toList) := by
  rw [readAuthority, cutLast_eq_none h.atSign]

/-- The user information ends at the last at sign, and the user name at the first colon. -/
theorem readAuthority_userInfo {user password host : String} (hinfo : IsUserInfo user password)
    (hhost : IsHost host) :
    readAuthority (user ++ ":" ++ password ++ "@" ++ host).toList
      = (some ⟨user, password⟩, host.toList) := by
  have hauthority : (user ++ ":" ++ password ++ "@" ++ host).toList
      = (user.toList ++ ':' :: password.toList) ++ '@' :: host.toList := by
    simp
  have hread : readUserInfo (user.toList ++ ':' :: password.toList) = ⟨user, password⟩ := by
    rw [readUserInfo, cut_append hinfo.colon]
    simp
  rw [readAuthority, hauthority, cutLast_append hhost.atSign]
  dsimp only
  rw [hread]

/-! ## Targets -/

/-- What the parts of a URL name. -/
def ofParts? : Option Credentials × List Char → List Char → Option Target
  | (credentials, host), path =>
    if host.isEmpty then none
    else
      let name := String.ofList host
      some
        { address := if hasPort host then name else name ++ ":" ++ toString defaultPort
          credentials
          url := "rtsp://" ++ name ++ String.ofList path }

theorem ofUrl?_eq (url : String) :
    ofUrl? url = (dropLead? "rtsp://" url.toList).bind fun rest =>
      ofParts? (readAuthority (rest.takeWhile (· != '/'))) (rest.dropWhile (· != '/')) :=
  rfl

/-- The address of a host, with the default port where it has none. -/
def addressOf (host : String) : String :=
  if hasPort host.toList then host else host ++ ":554"

theorem ofParts?_host {host : String} (h : host ≠ "") (credentials : Option Credentials)
    (path : String) :
    ofParts? (credentials, host.toList) path.toList
      = some { address := addressOf host, credentials, url := "rtsp://" ++ host ++ path } := by
  have hport : host ++ ":" ++ toString defaultPort = host ++ ":554" :=
    String.append_assoc ..
  rw [ofParts?, if_neg (by simpa using h)]
  simp only [String.ofList_toList, hport]
  rfl

theorem ofUrl?_of_readAuthority {authority host path : String} {credentials : Option Credentials}
    (hslash : '/' ∉ authority.toList) (hhost : IsHost host) (hpath : IsPath path)
    (hread : readAuthority authority.toList = (credentials, host.toList)) :
    ofUrl? ("rtsp://" ++ authority ++ path)
      = some { address := addressOf host, credentials, url := "rtsp://" ++ host ++ path } := by
  have hurl : ("rtsp://" ++ authority ++ path).toList
      = "rtsp://".toList ++ (authority.toList ++ path.toList) := by
    rw [String.toList_append, String.toList_append, List.append_assoc]
  obtain ⟨htake, hdrop⟩ := authority_append_path hslash
    (hpath.imp_left String.toList_eq_nil_iff.2)
  rw [ofUrl?_eq, hurl, dropLead?_append, Option.bind_some, htake, hdrop, hread,
    ofParts?_host hhost.ne_empty]

/-- The user information ends up in the credentials and nowhere else. -/
theorem ofUrl?_userInfo {host path : String} (hhost : IsHost host) (hpath : IsPath path) :
    ∃ address, (EndsInPort host → address = host) ∧ (¬EndsInPort host → address = host ++ ":554")
      ∧ ofUrl? ("rtsp://" ++ host ++ path)
        = some { address, credentials := none, url := "rtsp://" ++ host ++ path }
      ∧ ∀ user password, IsUserInfo user password →
        ofUrl? ("rtsp://" ++ user ++ ":" ++ password ++ "@" ++ host ++ path)
          = some { address, credentials := some ⟨user, password⟩,
                   url := "rtsp://" ++ host ++ path } := by
  refine ⟨addressOf host, fun hport => if_pos ((hasPort_iff host).2 hport),
    fun hport => if_neg (mt (hasPort_iff host).1 hport), ?_, fun user password hinfo => ?_⟩
  · exact ofUrl?_of_readAuthority hhost.slash hhost hpath (readAuthority_host hhost)
  · have hslash : '/' ∉ (user ++ ":" ++ password ++ "@" ++ host).toList := by
      simp [hinfo.slash, hinfo.password, hhost.slash]
    have hread := ofUrl?_of_readAuthority hslash hhost hpath (readAuthority_userInfo hinfo hhost)
    simpa only [String.append_assoc] using hread

/-- Separators in every part, and colons in the host that no port stands behind. -/
theorem ofUrl?_userInfo_brackets :
    IsHost "[::1]" ∧ IsPath "/live@2:x" ∧ IsUserInfo "a@b" "p:s@ss"
      ∧ ofUrl? "rtsp://a@b:p:s@ss@[::1]/live@2:x"
        = some { address := "[::1]:554", credentials := some ⟨"a@b", "p:s@ss"⟩,
                 url := "rtsp://[::1]/live@2:x" } := by
  have hhost : IsHost "[::1]" := ⟨by decide, by decide, by decide⟩
  have hpath : IsPath "/live@2:x" := .inr (by decide)
  have hinfo : IsUserInfo "a@b" "p:s@ss" := ⟨by decide, by decide, by decide⟩
  have hport : ¬EndsInPort "[::1]" := mt (hasPort_iff "[::1]").2 (by decide)
  obtain ⟨address, -, haddress, -, hread⟩ := ofUrl?_userInfo hhost hpath
  obtain rfl := haddress hport
  exact ⟨hhost, hpath, hinfo, hread "a@b" "p:s@ss" hinfo⟩

end Rtsp.Target
