import LtrData.Library.Strtok
import LtrData.Popdump.Session

namespace Ftpcp

open Popdump Strtok

def AT : Octet := 64

def COLON : Octet := 58

/-- A null pointer is none. -/
structure ConnectionInfo where
  szUsername : Option (List Octet)
  szPassword : Option (List Octet)
  szServer : Option (List Octet)
  szPort : Option (List Octet)
  szPath : Option (List Octet)
deriving DecidableEq

/-- Server, port and path, and where the last search has stopped. -/
def splitServer (szServer : Option (List Octet)) (saved : List Octet) :
    Option (List Octet) × Option (List Octet) × Option (List Octet) × List Octet :=
  let (szServer, saved) := strtok szServer [COLON] saved
  let (szPort, saved) := strtok none [COLON] saved
  let (szPath, saved) := strtok none [] saved
  let (szPath, szPort) := if szPath = none then (szPort, none) else (szPath, szPort)
  let (szPath, szServer) := if szPath = none then (szServer, none) else (szPath, szServer)
  (szServer, szPort, szPath, saved)

/-- A null pointer for the user's name goes on behind the path. -/
def splitUser (szUsername : Option (List Octet)) (saved : List Octet) :
    Option (List Octet) × Option (List Octet) :=
  let (szUsername, saved) := strtok szUsername [COLON] saved
  let (szPassword, _) := strtok none [] saved
  if szUsername = none then (some (text "anonymous"), some (text "@ftpcp"))
  else (szUsername, szPassword)

def ConnectionInfo.FillOut (info : ConnectionInfo) (ftpstr : List Octet) : ConnectionInfo :=
  if COLON ∉ ftpstr then { info with szServer := none, szPath := some ftpstr }
  else
    let (szUsername, saved) := strtok (some ftpstr) [AT] []
    let (szServer, saved) := strtok none [] saved
    let (szServer, szUsername) :=
      if szServer = none then (szUsername, none) else (szServer, szUsername)
    let (szServer, szPort, szPath, saved) := splitServer szServer saved
    let (szUsername, szPassword) := splitUser szUsername saved
    let szPort := if szPort = none then some (text "ftp") else szPort
    { szUsername, szPassword, szServer, szPort, szPath }

/-! ### What the usage text describes -/

/-- A component of a location, without the characters that end it. -/
structure Component (ends : List Octet) where
  text : List Octet
  some_ : text ≠ []
  clean : ∀ c ∈ text, c ∉ ends

structure User where
  username : Component [COLON, AT]
  password : Option (Component [AT])

structure Server where
  user : Option User
  name : Component [COLON, AT]
  port : Option (Component [COLON, AT])

structure Location where
  server : Option Server
  path : Component [COLON]

def User.render (u : User) : List Octet :=
  u.username.text ++ (match u.password with
    | none => []
    | some password => COLON :: password.text)

def Server.renderHost (s : Server) : List Octet :=
  s.name.text ++ (match s.port with
    | none => []
    | some port => COLON :: port.text)

def Server.render (s : Server) : List Octet :=
  (match s.user with
    | none => []
    | some user => user.render ++ [AT]) ++ s.renderHost

/-- The form [[user[:password]@]server[:port]:]path. -/
def Location.render (l : Location) : List Octet :=
  (match l.server with
    | none => []
    | some server => server.render ++ [COLON]) ++ l.path.text

/-- The components are found, with the defaults for those that are not there. -/
def Parsed (l : Location) (info : ConnectionInfo) : Prop :=
  match l.server with
  | none => info.szServer = none ∧ info.szPath = some l.path.text
  | some server => info =
    { szUsername := some (match server.user with
        | none => text "anonymous"
        | some user => user.username.text)
      szPassword := match server.user with
        | none => some (text "@ftpcp")
        | some user => user.password.map Component.text
      szServer := some server.name.text
      szPort := some (match server.port with
        | none => text "ftp"
        | some port => port.text)
      szPath := some l.path.text }

section splitServer

theorem Component.not_mem {ends : List Octet} (c : Component ends) {d : Octet} (mem : d ∈ ends) :
    d ∉ c.text := fun inside => c.clean d inside mem

theorem Component.clean_of {ends : List Octet} (c : Component ends) {d : Octet} (mem : d ∈ ends) :
    ∀ x ∈ c.text, x ∉ [d] := by
  intro x inside same
  rw [List.mem_singleton] at same
  exact c.clean x inside (same ▸ mem)

theorem colon_mem : COLON ∈ [COLON, AT] := List.mem_cons_self

theorem at_mem : AT ∈ [COLON, AT] := List.mem_cons_of_mem _ List.mem_cons_self

/-- The part behind the user is split right, whatever stands before it. -/
theorem splitServer_render (s : Server) (path : Component [COLON]) (saved : List Octet) :
    splitServer (some (s.renderHost ++ COLON :: path.text)) saved =
      (some s.name.text, s.port.map Component.text, some path.text, []) := by
  have name := s.name.clean_of colon_mem
  have pathClean := path.clean_of List.mem_cons_self
  unfold splitServer Server.renderHost
  cases s.port with
  | none =>
    simp only [List.append_nil]
    rw [strtok_some, next_token s.name.some_ name List.mem_cons_self]
    simp only [strtok_none, next_last path.some_ pathClean, next_nil]
    rfl
  | some port =>
    have portClean := port.clean_of colon_mem
    simp only [List.append_assoc, List.cons_append]
    rw [strtok_some, next_token s.name.some_ name List.mem_cons_self]
    simp only [strtok_none, next_token port.some_ portClean List.mem_cons_self, next_all path.some_]
    rfl

theorem splitUser_render (u : User) (saved : List Octet) :
    splitUser (some u.render) saved = (some u.username.text, u.password.map Component.text) := by
  have name := u.username.clean_of colon_mem
  unfold splitUser User.render
  cases u.password with
  | none =>
    simp only [List.append_nil]
    rw [strtok_some, next_last u.username.some_ name]
    rfl
  | some password =>
    rw [strtok_some]
    simp only [next_token u.username.some_ name List.mem_cons_self, strtok_none,
      next_all password.some_]
    rfl

theorem splitUser_none : splitUser none [] = (some (text "anonymous"), some (text "@ftpcp")) := rfl

theorem splitServer_within {s saved t : List Octet}
    (path : (splitServer (some s) saved).2.2.1 = some t) : t <:+: s := by
  unfold splitServer at path
  simp only [strtok_some, strtok_none] at path
  have first : (next [COLON] s).2 <:+: s := (next_suffix _ _).isInfix
  have second : (next [COLON] (next [COLON] s).2).2 <:+: s := (next_suffix _ _).isInfix.trans first
  cases last : (next [] (next [COLON] (next [COLON] s).2).2).1 with
  | some rest =>
    simp only [last, reduceCtorEq, if_false] at path
    obtain rfl := Option.some.inj path
    exact (next_within last).trans second
  | none =>
    simp only [last, if_true] at path
    cases middle : (next [COLON] (next [COLON] s).2).1 with
    | some port =>
      simp only [middle, reduceCtorEq, if_false] at path
      obtain rfl := Option.some.inj path
      exact (next_within middle).trans first
    | none =>
      simp only [middle, if_true] at path
      exact next_within path

end splitServer

section FillOut

variable {info : ConnectionInfo} {s : Server} {path : Component [COLON]}

theorem at_renderHost (s : Server) : AT ∉ s.renderHost := by
  have name := s.name.not_mem at_mem
  unfold Server.renderHost
  cases s.port with
  | none => simpa using name
  | some port =>
    have apart : AT ≠ COLON := by decide
    simp [name, port.not_mem at_mem, apart]

theorem at_render (u : User) : AT ∉ u.render := by
  have name := u.username.not_mem at_mem
  unfold User.render
  cases u.password with
  | none => simpa using name
  | some password =>
    have apart : AT ≠ COLON := by decide
    simp [name, password.not_mem List.mem_cons_self, apart]

theorem render_ne_nil (u : User) : u.render ≠ [] := by
  unfold User.render
  simp [u.username.some_]

theorem fillOut_user (info : ConnectionInfo) (s : Server) (u : User) (user : s.user = some u)
    (path : Component [COLON]) :
    Parsed ⟨some s, path⟩ (info.FillOut (Location.render ⟨some s, path⟩)) := by
  have text_ : Location.render ⟨some s, path⟩ =
      u.render ++ AT :: (s.renderHost ++ COLON :: path.text) := by
    simp [Location.render, Server.render, user]
  have clean : ∀ c ∈ u.render, c ∉ [AT] := by
    intro c mem same
    rw [List.mem_singleton] at same
    exact at_render u (same ▸ mem)
  have behind : s.renderHost ++ COLON :: path.text ≠ [] := by simp
  have colon : ¬ COLON ∉ u.render ++ AT :: (s.renderHost ++ COLON :: path.text) := by simp
  rw [text_, ConnectionInfo.FillOut, if_neg colon, strtok_some,
    next_token (render_ne_nil u) clean List.mem_cons_self]
  simp only [strtok_none, next_all behind, reduceCtorEq, if_false, splitServer_render,
    splitUser_render, Parsed, user]
  cases s.port <;> rfl

theorem fillOut_noUser (info : ConnectionInfo) (s : Server) (user : s.user = none)
    (path : Component [COLON]) (noAt : AT ∉ path.text) :
    Parsed ⟨some s, path⟩ (info.FillOut (Location.render ⟨some s, path⟩)) := by
  have text_ : Location.render ⟨some s, path⟩ = s.renderHost ++ COLON :: path.text := by
    simp [Location.render, Server.render, user]
  have clean : ∀ c ∈ s.renderHost ++ COLON :: path.text, c ∉ [AT] := by
    intro c mem same
    rw [List.mem_singleton] at same
    subst same
    rcases List.mem_append.mp mem with host | mem
    · exact at_renderHost s host
    rcases List.mem_cons.mp mem with colon | inPath
    · exact absurd colon (by decide)
    · exact noAt inPath
  have behind : s.renderHost ++ COLON :: path.text ≠ [] := by simp
  have colon : ¬ COLON ∉ s.renderHost ++ COLON :: path.text := by simp
  rw [text_, ConnectionInfo.FillOut, if_neg colon, strtok_some, next_last behind clean]
  simp only [strtok_none, next_nil, if_true, splitServer_render, splitUser_none, Parsed, user]
  cases s.port <;> rfl

/-- The first @ of the path is taken for the one behind a user. -/
theorem fillOut_at (info : ConnectionInfo) (s : Server) (user : s.user = none)
    (path : Component [COLON]) (at_ : AT ∈ path.text) :
    (info.FillOut (Location.render ⟨some s, path⟩)).szPath ≠ some path.text := by
  obtain ⟨front, back, split, absent⟩ := List.eq_append_cons_of_mem at_
  have text_ : Location.render ⟨some s, path⟩ = (s.renderHost ++ COLON :: front) ++ AT :: back := by
    simp [Location.render, Server.render, user, split]
  have notIn : AT ∉ s.renderHost ++ COLON :: front := by
    have apart : AT ≠ COLON := by decide
    simp [at_renderHost s, absent, apart]
  have clean : ∀ c ∈ s.renderHost ++ COLON :: front, c ∉ [AT] := by
    intro c mem same
    rw [List.mem_singleton] at same
    exact notIn (same ▸ mem)
  have before : s.renderHost ++ COLON :: front ≠ [] := by simp
  have colon : ¬ COLON ∉ s.renderHost ++ COLON :: front ++ AT :: back := by simp
  intro found
  rw [text_, ConnectionInfo.FillOut, if_neg colon, strtok_some,
    next_token before clean List.mem_cons_self] at found
  by_cases none_ : back = []
  · rw [none_] at found
    simp only [strtok_none, next_nil, if_true] at found
    exact notIn ((splitServer_within found).subset at_)
  · simp only [strtok_none, next_all none_, reduceCtorEq, if_false] at found
    have shorter := (splitServer_within found).length_le
    rw [split, List.length_append, List.length_cons] at shorter
    omega

/-- A location is parsed right unless a path with an @ comes behind a server without a user. -/
theorem fillOut_parsed (info : ConnectionInfo) (l : Location) :
    Parsed l (info.FillOut l.render) ↔
      ∀ s, l.server = some s → s.user = none → AT ∉ l.path.text := by
  obtain ⟨server, path⟩ := l
  cases server with
  | none =>
    have bare : COLON ∉ path.text := path.not_mem List.mem_cons_self
    have text_ : Location.render ⟨none, path⟩ = path.text := rfl
    rw [text_, ConnectionInfo.FillOut, if_pos bare]
    constructor
    · intro _ s none_
      cases none_
    · intro _
      exact ⟨rfl, rfl⟩
  | some s =>
    cases user : s.user with
    | none =>
      constructor
      · intro parsed _ _ _ at_
        have found : (info.FillOut (Location.render ⟨some s, path⟩)).szPath = some path.text := by
          rw [Parsed] at parsed
          rw [parsed]
        exact fillOut_at info s user path at_ found
      · intro noAt
        exact fillOut_noUser info s user path (noAt s rfl user)
    | some u =>
      constructor
      · intro _ s' same none_
        obtain rfl := Option.some.inj same
        rw [user] at none_
        cases none_
      · intro _
        exact fillOut_user info s u user path

end FillOut

theorem letter_some (c : Octet) : [c] ≠ [] := List.cons_ne_nil c []

def letter {ends : List Octet} (c : Octet) (clean : c ∉ ends) : Component ends :=
  ⟨[c], letter_some c, by simpa using clean⟩

def atInPath : Location where
  server := some ⟨none, letter 115 (by decide), none⟩
  path := ⟨[97, AT, 98], by decide, by decide⟩

theorem misparses : ¬ Parsed atInPath (ConnectionInfo.FillOut ⟨none, none, none, none, none⟩
    atInPath.render) := by
  have noServer : (ConnectionInfo.FillOut ⟨none, none, none, none, none⟩ atInPath.render).szServer =
      none := by decide
  intro parsed
  have same := congrArg ConnectionInfo.szServer parsed
  rw [noServer] at same
  cases same

end Ftpcp
