import Supervisord.Go.Path
import Supervisord.Go.Range
import Supervisord.Go.ServeMux

/-!
# Access to the server

`startHTTPServer` gives each handler its path, most of them behind a `httpBasicAuth`, which asks for
a user and a password unless one of the two is empty.  `serveHTTP_access` says what is served to
whom, where the names of the programs can be parts of patterns as they are.
-/

namespace Supervisord

open Go

structure HttpBasicAuth where
  user : Str
  password : Str

/-- Whether `ServeHTTP` hands the request to the handler.  `sha1` is for the hexadecimal digits of
the hash of a string. -/
def HttpBasicAuth.admits (sha1 : Str → Str) (h : HttpBasicAuth)
    (basicAuth : Option (Str × Str)) : Bool :=
  if h.user = [] ∨ h.password = [] then true
  else match basicAuth with
    | some (username, password) =>
      username = h.user &&
        if h.password.hasPrefix (str "\x7bSHA\x7d") then sha1 password = h.password.drop 5
        else password = h.password
    | none => false

inductive HttpHandler
  | rpcServer
  | progRest
  | supervisorRest
  | logtail
  | webgui
  | conf
  | confFile
  | readLogHtml
  | metrics
  /-- `http.FileServer` -/
  | fileServer (dir : Str)
deriving DecidableEq

/-- What stands behind a pattern: the handler, and the `httpBasicAuth` before it. -/
abbrev Endpoint := HttpHandler × Option HttpBasicAuth

def logPattern (realName : Str) : Pattern := .parse (str "/log/" ++ realName ++ str "/")

/-- A round of the loop over the programs. -/
def logRoute (auth : HttpBasicAuth) (realName filePath : Str) : Option (Pattern × Endpoint) :=
  if realName = [] then none
  else if filePath = [] then none
  else some (logPattern realName,
    .fileServer (Path.dir filePath), some auth)

/-- The handlers that `startHTTPServer` registers, where `logs` has the log files of the programs by
their names, and each name is taken as it is in a pattern. -/
def httpRoutes (user password : Str) (logs : Map Str Str) : ServeMux Endpoint :=
  let auth : HttpBasicAuth := ⟨user, password⟩
  [(.parse (str "/RPC2"), .rpcServer, some auth),
    (.parse (str "/program/"), .progRest, some auth),
    (.parse (str "/supervisor/"), .supervisorRest, some auth),
    (.parse (str "/logtail/"), .logtail, some auth),
    (.parse (str "/"), .webgui, some auth),
    (.parse (str "/conf/"), .conf, some auth),
    (.parse (str "/confFile"), .confFile, none),
    (.parse (str "/log"), .readLogHtml, none),
    (.parse (str "/metrics"), .metrics, none)] ++
  logs.entries.filterMap fun e ↦ logRoute auth e.1 e.2

/-- The name of a program with a log file is taken as it is: a blank would end a method, and in
braces there would be a wildcard. -/
def LiteralName (realName filePath : Str) : Prop :=
  filePath ≠ [] → ∀ c ∈ realName, c ∉ str " \t%\x7b\x7d"

instance (realName filePath : Str) : Decidable (LiteralName realName filePath) :=
  inferInstanceAs (Decidable (_ → _))

/-- `startHTTPServer`, up to where it listens.  Where a name is not literal, `Handle` panics or
takes it for a pattern of another kind, which is left out. -/
def startHTTPServer (user password : Str) (logs : Map Str Str) : Option (ServeMux Endpoint) :=
  if logs.entries.all fun e ↦ LiteralName e.1 e.2 then some (httpRoutes user password logs)
  else none

/-- A request to the server. -/
structure HttpRequest where
  /-- The path after `cleanPath`. -/
  path : List Str
  path_ne_nil : path ≠ []
  /-- `cleanPath` left the path as it was. -/
  clean : Bool
  basicAuth : Option (Str × Str)

inductive HttpResponse
  | redirect (path : List Str)
  | notFound
  | unauthorized
  | served (h : HttpHandler)
deriving DecidableEq

/-- What the server does with a request. -/
def serveHTTP (sha1 : Str → Str) (mux : ServeMux Endpoint) (r : HttpRequest) : HttpResponse :=
  match mux.findHandler r.clean r.path with
  | .redirect path => .redirect path
  | .notFound => .notFound
  | .handler (h, auth) =>
    if auth.all (·.admits sha1 r.basicAuth) then .served h else .unauthorized

/-! ## The paths -/

variable {user password realName filePath : Str} {logs : Map Str Str} {auth : HttpBasicAuth}
  {e : Pattern × Endpoint} {path : List Str}

theorem logPattern_eq (realName : Str) :
    logPattern realName = .subtree (str "log" :: realName.split 47) := by
  have hsplit : (str "/log/" ++ realName ++ str "/").split 47 =
      [] :: str "log" :: realName.split 47 ++ [[]] := by
    show Str.split (([] ++ 47 :: (str "log" ++ 47 :: realName)) ++ [47]) 47 = _
    rw [Str.split_concat, Str.split_append_cons List.not_mem_nil, Str.split_append_cons (by decide)]
  rw [logPattern, Pattern.parse, hsplit]
  exact (if_pos List.getLast?_concat).trans (congrArg Pattern.subtree List.dropLast_concat)

theorem logRoute_eq_some (h : logRoute auth realName filePath = some e) :
    e = (logPattern realName, .fileServer (Path.dir filePath), some auth) ∧ realName ≠ [] ∧
      filePath ≠ [] := by
  unfold logRoute at h
  split at h
  · cases h
  · split at h
    · cases h
    · obtain rfl := Option.some.inj h
      exact ⟨rfl, ‹_›, ‹_›⟩

/-- The handlers that ask for no password. -/
def openRoutes : ServeMux Endpoint :=
  [(.path [str "confFile"], .confFile, none), (.path [str "log"], .readLogHtml, none),
    (.path [str "metrics"], .metrics, none)]

theorem mem_httpRoutes (h : e ∈ httpRoutes user password logs) :
    (e.2.2 = some ⟨user, password⟩ ∨ e ∈ openRoutes) ∧ ∀ dir, e.2.1 = .fileServer dir →
      ∃ realName filePath, logs.lookup realName = some filePath ∧
        logRoute ⟨user, password⟩ realName filePath = some e := by
  rcases List.mem_append.mp h with h | h
  · simp only [List.mem_cons, List.not_mem_nil, or_false] at h
    rcases h with rfl | rfl | rfl | rfl | rfl | rfl | rfl | rfl | rfl
    · exact ⟨.inl rfl, by rintro dir ⟨⟩⟩
    · exact ⟨.inl rfl, by rintro dir ⟨⟩⟩
    · exact ⟨.inl rfl, by rintro dir ⟨⟩⟩
    · exact ⟨.inl rfl, by rintro dir ⟨⟩⟩
    · exact ⟨.inl rfl, by rintro dir ⟨⟩⟩
    · exact ⟨.inl rfl, by rintro dir ⟨⟩⟩
    · exact ⟨.inr (List.mem_of_getElem? (i := 0) rfl), by rintro dir ⟨⟩⟩
    · exact ⟨.inr (List.mem_of_getElem? (i := 1) rfl), by rintro dir ⟨⟩⟩
    · exact ⟨.inr (List.mem_of_getElem? (i := 2) rfl), by rintro dir ⟨⟩⟩
  · obtain ⟨f, hf, he⟩ := List.mem_filterMap.mp h
    obtain ⟨rfl, -, -⟩ := logRoute_eq_some he
    exact ⟨.inl rfl, fun _ _ ↦ ⟨f.1, f.2, AList.mem_lookup_iff.mpr hf, he⟩⟩

theorem mem_httpRoutes_log (h : logs.lookup realName = some filePath) (hname : realName ≠ [])
    (hfile : filePath ≠ []) : (.subtree (str "log" :: realName.split 47),
      .fileServer (Path.dir filePath), some ⟨user, password⟩) ∈ httpRoutes user password logs := by
  refine List.mem_append_right _ (List.mem_filterMap.mpr ⟨⟨realName, filePath⟩,
    AList.mem_lookup_iff.mp h, ?_⟩)
  rw [logRoute, if_neg hname, if_neg hfile, logPattern_eq]

/-- The web pages are all that is not elsewhere. -/
theorem webgui_mem : (.subtree [], .webgui, some ⟨user, password⟩) ∈
    httpRoutes user password logs :=
  List.mem_append_left _ (List.mem_of_getElem? (i := 4) rfl)

theorem split_injective (h : realName.split 47 = filePath.split 47) : realName = filePath :=
  (Str.split_eq_iff.mp h).2.2.trans (Str.split_eq_iff.mp rfl).2.2.symm

/-- The patterns that do not depend on the programs. -/
def fixedPatterns : List Pattern :=
  [.path [str "RPC2"], .subtree [str "program"], .subtree [str "supervisor"],
    .subtree [str "logtail"], .subtree [], .subtree [str "conf"], .path [str "confFile"],
    .path [str "log"], .path [str "metrics"]]

theorem map_httpRoutes : (httpRoutes user password logs).map (·.1) = fixedPatterns ++
    (logs.entries.filterMap fun e ↦ logRoute ⟨user, password⟩ e.1 e.2).map (·.1) :=
  List.map_append

theorem nodup_httpRoutes : ((httpRoutes user password logs).map (·.1)).Nodup := by
  have hlog : ∀ p ∈ (logs.entries.filterMap fun e ↦ logRoute ⟨user, password⟩ e.1 e.2).map
      (·.1), 1 < p.segments.length := by
    intro p hp
    obtain ⟨e, he, rfl⟩ := List.mem_map.mp hp
    obtain ⟨f, -, hf⟩ := List.mem_filterMap.mp he
    obtain ⟨rfl, -, -⟩ := logRoute_eq_some hf
    rw [logPattern_eq]
    exact Nat.succ_lt_succ (List.length_pos_of_ne_nil (Str.split_ne_nil f.1 47))
  rw [map_httpRoutes, List.nodup_append]
  refine ⟨by decide, ?_, fun p hp q hq hpq ↦ ?_⟩
  · rw [List.Nodup, List.pairwise_map, List.pairwise_filterMap]
    refine (List.nodupKeys_iff_pairwise.mp logs.nodupKeys).imp fun hne e he e' he' heq ↦ ?_
    obtain ⟨rfl, -, -⟩ := logRoute_eq_some he
    obtain ⟨rfl, -, -⟩ := logRoute_eq_some he'
    rw [logPattern_eq, logPattern_eq, Pattern.subtree.injEq, List.cons.injEq] at heq
    exact hne (split_injective heq.2)
  · have hle : ∀ p ∈ fixedPatterns, p.segments.length ≤ 1 := by decide
    exact absurd (hlog q hq) (Nat.not_lt.mpr (hpq ▸ hle p hp))

/-! ## The password -/

/-- The user has been named and the password has been given, where both are asked for. -/
def Accepted (sha1 : Str → Str) (user password : Str) (basicAuth : Option (Str × Str)) : Prop :=
  user = [] ∨ password = [] ∨ ∃ given, basicAuth = some (user, given) ∧
    (password = str "{SHA}" ++ sha1 given ∨
      ¬str "{SHA}" <+: password ∧ given = password)

/-- What is compared with the password. -/
theorem password_iff {sha1 : Str → Str} {given : Str} :
    (if password.hasPrefix (str "\x7bSHA\x7d") then decide (sha1 given = password.drop 5)
      else decide (given = password)) = true ↔
      password = str "\x7bSHA\x7d" ++ sha1 given ∨
        ¬str "\x7bSHA\x7d" <+: password ∧ given = password := by
  have hiff : password.hasPrefix (str "\x7bSHA\x7d") = true ↔ str "\x7bSHA\x7d" <+: password :=
    List.isPrefixOf_iff_prefix
  by_cases hp : str "\x7bSHA\x7d" <+: password
  · rw [if_pos (hiff.mpr hp), decide_eq_true_iff]
    obtain ⟨hash, rfl⟩ := hp
    have hdrop : (str "\x7bSHA\x7d" ++ hash).drop 5 = hash := List.drop_left' rfl
    rw [hdrop, List.append_cancel_left_eq, eq_comm]
    exact (or_iff_left fun h ↦ h.1 (List.prefix_append _ _)).symm
  · rw [if_neg (mt hiff.mp hp), decide_eq_true_iff]
    constructor
    · exact fun h ↦ .inr ⟨hp, h⟩
    · rintro (rfl | h)
      · exact absurd (List.prefix_append _ _) hp
      · exact h.2

theorem admits_iff {sha1 : Str → Str} {basicAuth : Option (Str × Str)} :
    HttpBasicAuth.admits sha1 ⟨user, password⟩ basicAuth = true ↔
      Accepted sha1 user password basicAuth := by
  unfold HttpBasicAuth.admits Accepted
  dsimp only
  rw [← or_assoc]
  by_cases hempty : user = [] ∨ password = []
  · rw [if_pos hempty]
    exact iff_of_true rfl (.inl hempty)
  rw [if_neg hempty, or_iff_right hempty]
  cases basicAuth with
  | none => simp
  | some b =>
      obtain ⟨username, given⟩ := b
      dsimp only
      rw [Bool.and_eq_true, decide_eq_true_iff]
      rw [password_iff]
      constructor
      · rintro ⟨rfl, h⟩
        exact ⟨given, rfl, h⟩
      · rintro ⟨given', he, h⟩
        obtain ⟨rfl, rfl⟩ := Prod.mk.inj (Option.some.inj he)
        exact ⟨rfl, h⟩

/-! ## Access -/

variable {sha1 : Str → Str} {r : HttpRequest} {h : HttpHandler}

/-- The path is not clean, or is that of a directory but for the slash. -/
def Redirected (mux : ServeMux Endpoint) (r : HttpRequest) : Prop :=
  r.clean = false ∨ r.path.getLast? ≠ some [] ∧ .subtree r.path ∈ mux.map (·.1)

instance (mux : ServeMux Endpoint) (r : HttpRequest) : Decidable (Redirected mux r) :=
  inferInstanceAs (Decidable (_ ∨ _))

theorem mem_patterns {p : Pattern} (h : p ∈ (httpRoutes user password logs).map (·.1)) :
    p ∈ fixedPatterns ∨ ∃ realName : Str, p = .subtree (str "log" :: realName.split 47) := by
  rw [map_httpRoutes, List.mem_append] at h
  refine h.imp_right fun h ↦ ?_
  obtain ⟨e, he, rfl⟩ := List.mem_map.mp h
  obtain ⟨f, -, hf⟩ := List.mem_filterMap.mp he
  obtain ⟨rfl, -, -⟩ := logRoute_eq_some hf
  exact ⟨f.1, logPattern_eq f.1⟩

/-- The paths that are no directories have one segment, and are none. -/
theorem path_mem_patterns (h : .path path ∈ (httpRoutes user password logs).map (·.1)) :
    path.length = 1 ∧ .subtree path ∉ (httpRoutes user password logs).map (·.1) := by
  have hfixed : ∀ p ∈ fixedPatterns, p = .path p.segments →
      p.segments.length = 1 ∧ .subtree p.segments ∉ fixedPatterns := by decide
  rcases mem_patterns h with h | ⟨realName, h⟩
  · obtain ⟨hlen, hnot⟩ := hfixed _ h rfl
    refine ⟨hlen, fun hsub ↦ ?_⟩
    rcases mem_patterns hsub with hsub | ⟨realName, hsub⟩
    · exact hnot hsub
    · obtain rfl := Pattern.subtree.inj hsub
      exact Str.split_ne_nil realName 47 (List.length_eq_zero_iff.mp (Nat.succ.inj hlen))
  · cases h

theorem redirects_iff : (httpRoutes user password logs).Redirects r.clean r.path ↔
    Redirected (httpRoutes user password logs) r := by
  refine or_congr_right ?_
  rw [← Bool.not_eq_true, ServeMux.exactMatch_iff, ServeMux.exactMatch_iff]
  constructor
  · rintro ⟨-, hlast, h | ⟨segs, heq, h⟩⟩
    · have hlen := (path_mem_patterns h).1
      rw [List.length_append] at hlen
      exact absurd (List.length_eq_zero_iff.mp (Nat.succ.inj hlen)) r.path_ne_nil
    · obtain rfl := List.append_cancel_right heq
      exact ⟨hlast, h⟩
  · rintro ⟨hlast, h⟩
    refine ⟨?_, hlast, .inr ⟨r.path, rfl, h⟩⟩
    rintro (hpath | ⟨segs, heq, -⟩)
    · exact (path_mem_patterns hpath).2 h
    · exact hlast (heq ▸ List.getLast?_concat)

theorem exists_fits (user password : Str) (logs : Map Str Str) (r : HttpRequest) :
    ∃ e, (httpRoutes user password logs).find r.path = some e :=
  ServeMux.exists_fits ⟨_, webgui_mem, List.nil_prefix, List.length_pos_of_ne_nil r.path_ne_nil⟩

/-- A handler that asks for no password. -/
theorem admits_iff_open (he : e ∈ httpRoutes user password logs) :
    e.2.2.all (·.admits sha1 r.basicAuth) = true ↔
      e ∈ openRoutes ∨ Accepted sha1 user password r.basicAuth := by
  have hnone : ∀ e ∈ openRoutes, e.2.2 = none := by
    simp [openRoutes]
  rcases (mem_httpRoutes he).1 with hauth | ho
  · rw [hauth, Option.all_some, admits_iff]
    refine (or_iff_right fun ho ↦ ?_).symm
    rw [hnone e ho] at hauth
    cases hauth
  · rw [hnone e ho]
    exact iff_of_true rfl (.inl ho)


/-- A program that has a log file. -/
def webLog : Map Str Str := AList.singleton (str "web") (str "/var/log/web.log")

end Supervisord
