import Supervisord.Format.PathTemplate
import Supervisord.Go.Range
import Supervisord.Go.Split
import Supervisord.Protocol.Relay

/-!
# The restful interface

A supervisor knows others, its remote supervisors, each by the name of a node and a URL.  A request
names the node it is for.  A supervisor serves the requests for itself, sends those for a node among
its remotes on to the URL of the node, and hands back what it is told there.

Requests travel as paths, which name the node and the program; `send_request` says that a remote
supervisor makes of a path what the sender means.  How a path is escaped and cleaned on its way is
not part of the model, so that the results are about names that need neither (`UrlSafe`).
-/

universe u v w

namespace Supervisord

open Go Fuel

/-! ## Paths -/

inductive Method
  | get
  | post
  | put
deriving DecidableEq

/-- The methods of `SupervisorRestful` that handle requests. -/
inductive RestHandler
  | listProgram
  | getProgramInfo
  | startProgram
  | stopProgram
  | restartProgram
  | readStdoutLog
  | readStderrLog
  | startPrograms
  | stopPrograms
  | listNodes
  | pingNode
  | shutdown
  | reload
deriving DecidableEq

/-- A path of literals. -/
def literals (l : List String) : PathTemplate Str := .lit [] :: l.map fun s ↦ .lit (str s)

/-- The routes of `CreateProgramHandler`. -/
def createProgramHandler : List (Route Str Method RestHandler) :=
  [⟨literals ["program", "list"], [.get], .listProgram⟩,
    ⟨literals ["program", "info"] ++ [.var, .var], [.get], .getProgramInfo⟩,
    ⟨literals ["program", "start"] ++ [.var, .var], [.post, .put], .startProgram⟩,
    ⟨literals ["program", "stop"] ++ [.var, .var], [.post, .put], .stopProgram⟩,
    ⟨literals ["program", "restart"] ++ [.var, .var], [.post, .put], .restartProgram⟩,
    ⟨literals ["program", "log"] ++ [.var, .var, .lit (str "stdout")], [.get], .readStdoutLog⟩,
    ⟨literals ["program", "log"] ++ [.var, .var, .lit (str "stderr")], [.get], .readStderrLog⟩,
    ⟨literals ["program", "startPrograms"], [.post, .put], .startPrograms⟩,
    ⟨literals ["program", "stopPrograms"], [.post, .put], .stopPrograms⟩]

/-- The routes of `CreateSupervisorHandler`. -/
def createSupervisorHandler : List (Route Str Method RestHandler) :=
  [⟨literals ["supervisor", "listNodes"], [.get], .listNodes⟩,
    ⟨literals ["supervisor"] ++ [.var, .lit (str "ping")], [.get], .pingNode⟩,
    ⟨literals ["supervisor", "shutdown"], [.put, .post], .shutdown⟩,
    ⟨literals ["supervisor", "reload"], [.put, .post], .reload⟩,
    ⟨literals ["supervisor"] ++ [.var, .lit (str "reload")], [.put, .post], .reload⟩,
    ⟨literals ["supervisor"] ++ [.var, .lit (str "shutdown")], [.put, .post], .shutdown⟩]

/-- What the server does with a path: the handler and its variables. -/
def route (m : Method) (path : Str) : Option (RestHandler × List Str) :=
  Route.find (fun s ↦ !s.isEmpty) (createProgramHandler ++ createSupervisorHandler) m
    (path.split 47)

/-- The name goes through a path as it is: it is not empty, nothing in it ends a segment, is
escaped or begins a query, and it is not a step to a directory. -/
def UrlSafe (s : Str) : Prop :=
  s ≠ [] ∧ (∀ c ∈ s, c ∉ str "/%?#" ∧ 0x20 < c ∧ c < 0x7f) ∧ s ≠ str "." ∧ s ≠ str ".."

instance : DecidablePred UrlSafe := fun s ↦
  decidable_of_iff (s ≠ [] ∧ (s.all fun c ↦ c ∉ str "/%?#" ∧ 0x20 < c ∧ c < 0x7f) = true ∧
    s ≠ str "." ∧ s ≠ str "..")
    (by simp only [UrlSafe, List.all_eq_true, decide_eq_true_eq])

theorem UrlSafe.ne_nil {s : Str} (h : UrlSafe s) : s ≠ [] := h.1

theorem UrlSafe.slash_notMem {s : Str} (h : UrlSafe s) : 47 ∉ s :=
  fun hs ↦ (h.2.1 47 hs).1 (by decide)

theorem unambiguous_routes :
    Route.Unambiguous (createProgramHandler ++ createSupervisorHandler) := by
  decide

theorem slash_notMem_literals : (createProgramHandler ++ createSupervisorHandler).all fun r ↦
    r.template.all fun seg ↦ match seg with
      | .lit s => !s.contains 47
      | .var => true := by
  decide

/-- A path that has been made from one of the routes. -/
theorem route_eq {r : Route Str Method RestHandler}
    (hr : r ∈ createProgramHandler ++ createSupervisorHandler) {m : Method} (hm : m ∈ r.methods)
    {args : List Str} (hsafe : ∀ a ∈ args, UrlSafe a) (hn : r.template.arity = args.length)
    {path : Str} (hne : r.template.fill args ≠ [])
    (hpath : path = [47].intercalate (r.template.fill args)) :
    route m path = some (r.handler, args) := by
  have hslash : ∀ s ∈ r.template.fill args, 47 ∉ s := by
    intro s hs
    rcases PathTemplate.mem_fill hs with hl | ha
    · have h := List.all_eq_true.mp (List.all_eq_true.mp slash_notMem_literals r hr) _ hl
      simpa using h
    · exact (hsafe s ha).slash_notMem
  rw [route, Str.split_eq_iff.mpr ⟨hne, hslash, hpath⟩]
  refine Route.find_fill unambiguous_routes hr hm (fun a ha ↦ ?_) hn
  cases a with
  | nil => exact absurd rfl (hsafe [] ha).ne_nil
  | cons => rfl

/-! ## The supervisors -/

/-- Supervisors that know each other by name and URL. -/
structure Federation (ι : Type u) where
  getNodeName : ι → Str
  /-- key: node name, value: supervisor URL -/
  remoteSupervisors : ι → Map Str Str
  /-- Who answers at a URL, with the user and the password in it. -/
  dial : Str → Option ι

/-- What `_startProgram` and `_stopProgram` return. -/
structure Outcome where
  success : Bool
  err : Bool
deriving DecidableEq

/-- A kind of request that is for the supervisor of a node, and about a `κ` there: how it is sent
on, and what the results are.  `σ` is the state of the programs of all supervisors. -/
structure Service (ι : Type u) (κ : Type) (σ : Type v) (ρ : Type w) where
  handler : RestHandler
  method : Method
  path : Str → κ → Str
  /-- What the path is about, from its variables but the node. -/
  subject : List Str → κ
  /-- What the supervisor does that the request is for. -/
  serve : ι → κ → σ → ρ × σ
  /-- The node is not known. -/
  unknown : ρ
  /-- There is no answer, or none that can be decoded. -/
  failed : ρ
  /-- What is made of an answer. -/
  reply : ρ → ρ
  Safe : κ → Prop
  /-- A remote supervisor makes of the path what it has been made from. -/
  routed : ∀ {node : Str} {k : κ}, UrlSafe node → Safe k →
    ∃ args, route method (path node k) = some (handler, node :: args) ∧ subject args = k

namespace Service

variable {ι : Type u} {σ : Type v} {π : Type w} {node name : Str}

theorem routed_ping (hn : UrlSafe node) : route .get (str "/supervisor/" ++ node ++ str "/ping") =
    some (.pingNode, [node]) := by
  refine route_eq (r := ⟨literals ["supervisor"] ++ [.var, .lit (str "ping")], [.get], .pingNode⟩)
    (by simp [createSupervisorHandler]) (by decide) (by simpa using hn) rfl (by rintro ⟨⟩) ?_
  simp only [List.append_assoc]
  rfl

/-- The path of a request about a program. -/
theorem routed_program (action : String) (methods : List Method) (h : RestHandler)
    (hr : ⟨literals ["program", action] ++ [.var, .var], methods, h⟩ ∈ createProgramHandler)
    {m : Method} (hm : m ∈ methods) {s : Str}
    (hs : s = [47].intercalate [[], str "program", str action, []]) (hnode : UrlSafe node)
    (hname : UrlSafe name) : route m (s ++ node ++ str "/" ++ name) = some (h, [node, name]) := by
  refine route_eq (List.mem_append_left _ hr) hm (by simp [hnode, hname]) rfl (by rintro ⟨⟩) ?_
  subst hs
  show _ = [47].intercalate [[], str "program", str action, node, name]
  simp only [List.intercalate_cons_cons, List.intercalate_singleton, List.append_assoc,
    List.nil_append]
  rfl

theorem routed_log (kind : String) (h : RestHandler)
    (hr : ⟨literals ["program", "log"] ++ [.var, .var, .lit (str kind)], [.get], h⟩ ∈
      createProgramHandler) {s : Str} (hs : s = 47 :: str kind) (hnode : UrlSafe node)
    (hname : UrlSafe name) :
    route .get (str "/program/log/" ++ node ++ str "/" ++ name ++ s) = some (h, [node, name]) := by
  refine route_eq (List.mem_append_left _ hr) List.mem_cons_self (by simp [hnode, hname]) rfl
    (by rintro ⟨⟩) ?_
  subst hs
  show _ = [47].intercalate [[], str "program", str "log", node, name, str kind]
  simp only [List.intercalate_cons_cons, List.intercalate_singleton, List.append_assoc,
    List.nil_append]
  rfl

def pingNode : Service ι Unit σ Bool where
  handler := .pingNode
  method := .get
  path node _ := str "/supervisor/" ++ node ++ str "/ping"
  subject _ := ()
  serve _ _ w := (true, w)
  unknown := false
  failed := false
  reply := id
  Safe _ := True
  routed hn _ := ⟨_, routed_ping hn, rfl⟩

/-- `_startProgram`; the handler answers with `err == nil && success`. -/
def startProgram (startProcess : ι → Str → σ → Outcome × σ) : Service ι Str σ Outcome where
  handler := .startProgram
  method := .post
  path node program := str "/program/start/" ++ node ++ str "/" ++ program
  subject args := args.headD []
  serve := startProcess
  unknown := ⟨false, false⟩
  failed := ⟨false, true⟩
  reply r := ⟨!r.err && r.success, false⟩
  Safe := UrlSafe
  routed hn hp := ⟨_, routed_program "start" [.post, .put] .startProgram
    (by simp [createProgramHandler]) (by decide) (by decide) hn hp, rfl⟩

/-- `_stopProgram`. -/
def stopProgram (stopProcess : ι → Str → σ → Outcome × σ) : Service ι Str σ Outcome where
  handler := .stopProgram
  method := .post
  path node programName := str "/program/stop/" ++ node ++ str "/" ++ programName
  subject args := args.headD []
  serve := stopProcess
  unknown := ⟨false, false⟩
  failed := ⟨false, true⟩
  reply r := ⟨!r.err && r.success, false⟩
  Safe := UrlSafe
  routed hn hp := ⟨_, routed_program "stop" [.post, .put] .stopProgram
    (by simp [createProgramHandler]) (by decide) (by decide) hn hp, rfl⟩

/-- `GetProgramInfo` answers with 200 and a `ProcessInfo`, or with 500 and the text of an error.
The status of an answer is not looked at, and the text of an error decodes to an empty
`ProcessInfo`. -/
def getProgramInfo (empty : π) (getProcessInfo : ι → Str → σ → Except Str π) :
    Service ι Str σ (Except Str π) where
  handler := .getProgramInfo
  method := .get
  path node programName := str "/program/info/" ++ node ++ str "/" ++ programName
  subject args := args.headD []
  serve i programName w := (getProcessInfo i programName w, w)
  unknown := .error (str "failed to get program info from remote node")
  failed := .error (str "failed to get program info from remote node")
  reply
    | .ok procInfo => .ok procInfo
    | .error _ => .ok empty
  Safe := UrlSafe
  routed hn hp := ⟨_, routed_program "info" [.get] .getProgramInfo
    (by simp [createProgramHandler]) (by decide) (by decide) hn hp, rfl⟩

def readStdoutLog (readProcessStdoutLog : ι → Str → σ → Str) : Service ι Str σ Str where
  handler := .readStdoutLog
  method := .get
  path node programName := str "/program/log/" ++ node ++ str "/" ++ programName ++ str "/stdout"
  subject args := args.headD []
  serve i programName w := (readProcessStdoutLog i programName w, w)
  unknown := []
  failed := []
  reply := id
  Safe := UrlSafe
  routed hn hp := ⟨_, routed_log "stdout" .readStdoutLog (by simp [createProgramHandler])
    (by decide) hn hp, rfl⟩

def readStderrLog (readProcessStderrLog : ι → Str → σ → Str) : Service ι Str σ Str where
  handler := .readStderrLog
  method := .get
  path node programName := str "/program/log/" ++ node ++ str "/" ++ programName ++ str "/stderr"
  subject args := args.headD []
  serve i programName w := (readProcessStderrLog i programName w, w)
  unknown := []
  failed := []
  reply := id
  Safe := UrlSafe
  routed hn hp := ⟨_, routed_log "stderr" .readStderrLog (by simp [createProgramHandler])
    (by decide) hn hp, rfl⟩

end Service

namespace Federation

variable {ι : Type u} {κ : Type} {σ : Type v} {ρ : Type w} (net : Federation ι)

/-- A request to a URL reaches a handler of the supervisor that answers there.  The page that says
that there is no such handler is an error to whoever has sent the request. -/
def send (url : Str) (m : Method) (path : Str) : Option (ι × RestHandler × List Str) :=
  (net.dial url).bind fun j ↦ (route m path).map (j, ·)

/-- A request for a node, which `i` has received. -/
def request (svc : Service ι κ σ ρ) : Nat → ι → Str → κ → σ → Option (ρ × σ)
  | 0, _, _, _, _ => none
  | n + 1, i, node, k, w =>
    if node = [] ∨ node = net.getNodeName i then some (svc.serve i k w)
    else match (net.remoteSupervisors i).lookup node with
      | none => some (svc.unknown, w)
      | some url => match net.send url svc.method (svc.path node k) with
        | none => some (svc.failed, w)
        | some (j, h, args) =>
          if h = svc.handler then
            (request svc n j (args.headD []) (svc.subject args.tail) w).map (Prod.map svc.reply id)
          else some (svc.failed, w)

/-- `RestartProgram`: whether the answer says success. -/
def restartProgram (stopProcess startProcess : ι → Str → σ → Outcome × σ) (n : Nat) (i : ι)
    (node name : Str) (w : σ) : Option (Bool × σ) := do
  let (stopped, w) ← net.request (.stopProgram stopProcess) n i node name w
  if stopped.err then return (false, w)
  let (started, w) ← net.request (.startProgram startProcess) n i node name w
  return (!started.err, w)

/-! ## Who serves a request -/

/-- `i` sends the requests for a node on to `j`. -/
def Passes (node : Str) (i j : ι) : Prop :=
  node ≠ net.getNodeName i ∧ ∃ url, (net.remoteSupervisors i).lookup node = some url ∧
    net.dial url = some j

/-- What `i` does with a request, which is sent on as it is. -/
def hop (svc : Service ι κ σ ρ) (node : Str) (k : κ) (w : σ) (i : ι) : Relay ι (ρ × σ) :=
  if node = net.getNodeName i then .answer (svc.serve i k w)
  else match (net.remoteSupervisors i).lookup node with
    | none => .answer (svc.unknown, w)
    | some url => match net.dial url with
      | none => .answer (svc.failed, w)
      | some j => .pass j

variable {net} {svc : Service ι κ σ ρ} {node : Str} {k : κ} {w w' : σ} {i j : ι} {r : ρ} {n : Nat}

/-- The model is an instance of relayed requests. -/
theorem request_eq_ask (hn : UrlSafe node) (hk : svc.Safe k) (n : Nat) (i : ι) :
    net.request svc n i node k w =
      Relay.ask (net.hop svc node k w) (Prod.map svc.reply id) n i := by
  induction n generalizing i with
  | zero => rfl
  | succ n ih =>
      obtain ⟨args, hroute, hargs⟩ := svc.routed hn hk
      rw [request, Relay.ask, hop]
      by_cases hi : node = net.getNodeName i
      · rw [if_pos (.inr hi), if_pos hi]
      · rw [if_neg (not_or.mpr ⟨hn.ne_nil, hi⟩), if_neg hi]
        cases (net.remoteSupervisors i).lookup node with
        | none => rfl
        | some url =>
            dsimp only
            rw [send, hroute]
            cases net.dial url with
            | none => rfl
            | some j =>
                show (if svc.handler = svc.handler then _ else _) = _
                rw [if_pos rfl, List.headD_cons, List.tail_cons, hargs, ih]

theorem hop_eq_pass : net.hop svc node k w i = .pass j ↔ net.Passes node i j := by
  rw [hop, Passes]
  by_cases hi : node = net.getNodeName i
  · rw [if_pos hi]
    exact iff_of_false (by rintro ⟨⟩) fun h ↦ h.1 hi
  · rw [if_neg hi, and_iff_right hi]
    cases (net.remoteSupervisors i).lookup node with
    | none => simp
    | some url => cases hd : net.dial url <;> simp [hd]

theorem passes_hop : Relay.Passes (net.hop svc node k w) = net.Passes node := by
  funext i j
  exact propext hop_eq_pass

variable (net svc node k w) in
/-- A request comes to its end at `j`: the supervisor is that of the node, it knows no such node, or
nobody answers at the URL of the node. -/
inductive EndsAt (j : ι) : ρ × σ → Prop
  | served (h : node = net.getNodeName j) : EndsAt j (svc.serve j k w)
  | unknown (h : node ≠ net.getNodeName j) (hu : (net.remoteSupervisors j).lookup node = none) :
    EndsAt j (svc.unknown, w)
  | failed {url : Str} (h : node ≠ net.getNodeName j)
    (hu : (net.remoteSupervisors j).lookup node = some url) (hd : net.dial url = none) :
    EndsAt j (svc.failed, w)

theorem hop_eq_answer {x : ρ × σ} :
    net.hop svc node k w j = .answer x ↔ net.EndsAt svc node k w j x := by
  rw [hop]
  constructor
  · intro h
    by_cases hj : node = net.getNodeName j
    · rw [if_pos hj, Relay.answer.injEq] at h
      exact h ▸ .served hj
    · rw [if_neg hj] at h
      cases hu : (net.remoteSupervisors j).lookup node with
      | none =>
          simp only [hu, Relay.answer.injEq] at h
          exact h ▸ .unknown hj hu
      | some url =>
          cases hd : net.dial url with
          | none =>
              simp only [hu, hd, Relay.answer.injEq] at h
              exact h ▸ .failed hj hu hd
          | some _ => simp [hu, hd] at h
  · rintro (hj | ⟨hj, hu⟩ | ⟨hj, hu, hd⟩)
    · rw [if_pos hj]
    · rw [if_neg hj, hu]
    · rw [if_neg hj, hu]
      simp only [hd]

theorem request_eq (hn : UrlSafe node) (hk : svc.Safe k) : (net.request svc · i node k w) =
    (Relay.ask (net.hop svc node k w) (Prod.map svc.reply id) · i) :=
  funext fun n ↦ request_eq_ask hn hk n i

theorem returns_of_request (hn : UrlSafe node) (hk : svc.Safe k) {x : ρ × σ}
    (h : net.request svc n i node k w = some x) : Returns (net.request svc · i node k w) x := by
  rw [request_eq hn hk]
  rw [request_eq_ask hn hk] at h
  exact Relay.returns_of_ask h

/-- What is returned, and by whom. -/
theorem returns_request (hn : UrlSafe node) (hk : svc.Safe k) {x : ρ × σ} :
    Returns (net.request svc · i node k w) x ↔ ∃ n j y, Relay.Route (net.Passes node) n i j ∧
      net.EndsAt svc node k w j y ∧ x = (Prod.map svc.reply id)^[n] y := by
  rw [request_eq hn hk, Relay.returns_ask, passes_hop]
  simp only [hop_eq_answer]

/-- **A request is served once, by the supervisor of its node.**  It is handed on along the remote
supervisors that have the name of the node, until one has it as its own name; only then something is
done, with the program that has been asked for, and what comes back has been handed back by each of
the others.  There is no answer exactly if it is handed on for ever. -/
theorem request_served (hn : UrlSafe node) (hk : svc.Safe k) :
    (∀ x, Returns (net.request svc · i node k w) x ↔ ∃ n j y, Relay.Route (net.Passes node) n i j ∧
      net.EndsAt svc node k w j y ∧ x = (Prod.map svc.reply id)^[n] y) ∧
    ((¬∃ x, Returns (net.request svc · i node k w) x) ↔
      ∃ f : Nat → ι, f 0 = i ∧ ∀ n, net.Passes node (f n) (f (n + 1))) := by
  refine ⟨fun x ↦ returns_request hn hk, ?_⟩
  rw [request_eq hn hk, Relay.exists_returns_ask, passes_hop]
  exact not_acc_iff_exists_descending_chain

/-- A supervisor answers at the URL with its own name.  For `c`, `a` has the URL of `b`. -/
def chain : Federation Str where
  getNodeName := id
  remoteSupervisors i :=
    if i = str "a" then AList.singleton (str "c") (str "http://b")
    else if i = str "b" then AList.singleton (str "c") (str "http://c")
    else ∅
  dial url := some (url.drop 7)

/-- Programs that do nothing but to record that they have been started. -/
def recordStart (j program : Str) (w : List (Str × Str)) : Outcome × List (Str × Str) :=
  (⟨true, false⟩, w ++ [(j, program)])

theorem route_chain : Relay.Route (chain.Passes (str "c")) 2 (str "a") (str "c") := by
  refine .pass (j := str "b") ⟨by decide, str "http://b", ?_, rfl⟩
    (.pass (j := str "c") ⟨by decide, str "http://c", ?_, rfl⟩ (.here _))
  · exact AList.mem_lookup_iff.mpr List.mem_cons_self
  · exact AList.mem_lookup_iff.mpr List.mem_cons_self

/-- A program of `c` is started through `a`. -/
theorem request_served_chain :
    Returns (chain.request (.startProgram recordStart) · (str "a") (str "c") (str "p") [])
      (⟨true, false⟩, [(str "c", str "p")]) :=
  ((request_served (by decide) (show UrlSafe (str "p") by decide)).1 _).mpr
    ⟨2, str "c", _, route_chain, .served rfl, rfl⟩

end Federation

end Supervisord
