import Supervisord.Go.Range
import Supervisord.Machine.Recursion
import Supervisord.Supervisor.Federation

/-!
# Listing nodes

`ListNodes` tells of the supervisor itself and of each of its remote supervisors, which are asked
for their own lists and thereby ask theirs.  `PingNode` hands a request on from one to the other.
They agree on which nodes are there (`listNodes_ping`).
-/

universe u v w

namespace Supervisord

open Go Fuel

inductive NodeStatus
  | online
  | offline
deriving DecidableEq

/-- `υ` is for the usage of the processor and of the memory. -/
structure NodeInfo (υ : Type v) where
  name : Str
  status : NodeStatus
  usage : υ
deriving DecidableEq

namespace Federation

variable {ι : Type u} {υ : Type v} (net : Federation ι) (usage : ι → υ) (idle : υ)

/-- `listRemoteNodeInfo`, which returns nothing if there is an error.  `list` is `ListNodes`. -/
def listRemoteNodeInfo (list : ι → Option (List (NodeInfo υ))) (node url : Str) :
    Option (Option (NodeInfo υ)) :=
  match net.send url .get (str "/supervisor/listNodes") with
  | none => some none
  | some (j, h, _) =>
    if h = .listNodes then (list j).map (·.find? (·.name = node)) else some none

/-- `ListNodes`.  What is appended for a remote supervisor in the `k`-th round depends on the
choices there. -/
def listNodes : Nat → Runtime × ι → Option (List (NodeInfo υ))
  | 0, _ => none
  | n + 1, (rt, i) =>
    let remotes := (rt.fork 0).range (net.remoteSupervisors i).entries
    (remotes.zipIdx.mapM fun e ↦
      (net.listRemoteNodeInfo (fun j ↦ listNodes n (rt.fork (e.2 + 2), j)) e.1.1 e.1.2).map
        (·.getD ⟨e.1.1, .offline, idle⟩)).map fun nodes ↦
      (rt.fork 1).sortStr (·.name) (⟨net.getNodeName i, .online, usage i⟩ :: nodes)

/-! ## Coming to an end -/

/-- `j` answers at one of the URLs of `i`. -/
def Remote (i j : ι) : Prop :=
  ∃ node url, (net.remoteSupervisors i).lookup node = some url ∧ net.dial url = some j

/-- The calls for the remote supervisors. -/
def listCalls (x : Runtime × ι) : List (Runtime × ι) :=
  ((x.1.fork 0).range (net.remoteSupervisors x.2).entries).zipIdx.filterMap fun e ↦
    (net.dial e.1.2).map (x.1.fork (e.2 + 2), ·)

variable {net} {usage : ι → υ} {idle : υ} {rt : Runtime} {i j : ι} {n : Nat}
  {list : ι → Option (List (NodeInfo υ))} {node url : Str} {l : List (NodeInfo υ)}

theorem listRemoteNodeInfo_none (h : net.dial url = none) :
    net.listRemoteNodeInfo list node url = some none := by
  simp [listRemoteNodeInfo, send, h]

theorem listRemoteNodeInfo_some (h : net.dial url = some j) :
    net.listRemoteNodeInfo list node url = (list j).map (·.find? (·.name = node)) := by
  have hroute : route .get (str "/supervisor/listNodes") = some (.listNodes, []) := by decide
  simp [listRemoteNodeInfo, send, h, hroute]

theorem mem_listCalls {x y : Runtime × ι} : y ∈ net.listCalls x ↔
    ∃ e ∈ ((x.1.fork 0).range (net.remoteSupervisors x.2).entries).zipIdx,
      net.dial e.1.2 = some y.2 ∧ y.1 = x.1.fork (e.2 + 2) := by
  obtain ⟨rt', j⟩ := y
  simp [listCalls, List.mem_filterMap, and_comm, eq_comm]

/-- A function that asks the remote supervisors one after the other. -/
theorem recursion_remotes {β ρ : Type v} {f : Nat → Runtime × ι → Option ρ}
    {combine : Runtime × ι → List β → ρ} (visit : (ι → Option ρ) → Str → Str → Option β)
    (hzero : ∀ x, f 0 x = none)
    (hsucc : ∀ n x, f (n + 1) x =
      (((x.1.fork 0).range (net.remoteSupervisors x.2).entries).zipIdx.mapM fun e ↦
        visit (fun j ↦ f n (x.1.fork (e.2 + 2), j)) e.1.1 e.1.2).map (combine x))
    (hnone : ∀ node url, net.dial url = none → ∃ b, ∀ g, visit g node url = some b)
    (hsome : ∀ node url j, net.dial url = some j →
      ∃ q : ρ → β, ∀ g, visit g node url = (g j).map q) : Recursion f net.listCalls := by
  refine ⟨hzero, fun {n m x} h ↦ ?_, fun n x ↦ ?_⟩
  · rw [hsucc, hsucc]
    refine congrArg (Option.map _) (mapM_congr fun e he ↦ ?_)
    cases hd : net.dial e.1.2 with
    | none =>
        obtain ⟨b, hb⟩ := hnone e.1.1 _ hd
        rw [hb, hb]
    | some j =>
        obtain ⟨q, hq⟩ := hsome e.1.1 _ j hd
        rw [hq, hq, h (x.1.fork (e.2 + 2), j) (mem_listCalls.mpr ⟨e, he, hd, rfl⟩)]
  · rw [hsucc, Option.isSome_map, isSome_mapM]
    constructor
    · intro h y hy
      obtain ⟨e, he, hd, hy⟩ := mem_listCalls.mp hy
      obtain ⟨q, hq⟩ := hsome e.1.1 _ _ hd
      have := h e he
      rw [hq, Option.isSome_map, ← hy] at this
      exact this
    · intro h e he
      cases hd : net.dial e.1.2 with
      | none =>
          obtain ⟨b, hb⟩ := hnone e.1.1 _ hd
          rw [hb]
          rfl
      | some j =>
          obtain ⟨q, hq⟩ := hsome e.1.1 _ j hd
          rw [hq, Option.isSome_map]
          exact h (x.1.fork (e.2 + 2), j) (mem_listCalls.mpr ⟨e, he, hd, rfl⟩)

theorem recursion_listNodes : Recursion (net.listNodes usage idle) net.listCalls := by
  refine recursion_remotes (fun list node url ↦
    (net.listRemoteNodeInfo list node url).map (·.getD ⟨node, .offline, idle⟩))
    (fun _ ↦ rfl) (fun _ _ ↦ rfl) (fun node url hd ↦ ?_) fun node url j hd ↦ ?_
  · exact ⟨⟨node, .offline, idle⟩, fun g ↦ by rw [listRemoteNodeInfo_none hd]; rfl⟩
  · refine ⟨fun l ↦ (l.find? (·.name = node)).getD ⟨node, .offline, idle⟩, fun g ↦ ?_⟩
    rw [listRemoteNodeInfo_some hd, Option.map_map]
    rfl

theorem acc_listCalls : Acc (fun y x ↦ y ∈ net.listCalls x) (rt, i) ↔
    Acc (fun j i ↦ net.Remote i j) i := by
  refine acc_iff (p := Prod.snd) (fun y x hy ↦ ?_) fun j x hj ↦ ?_
  · obtain ⟨e, he, hd, -⟩ := mem_listCalls.mp hy
    have he := Runtime.mem_range.mp (List.fst_mem_of_mem_zipIdx he)
    exact ⟨e.1.1, e.1.2, AList.mem_lookup_iff.mpr he, hd⟩
  · obtain ⟨node, url, hu, hd⟩ := hj
    have he : ⟨node, url⟩ ∈ (x.1.fork 0).range (net.remoteSupervisors x.2).entries :=
      Runtime.mem_range.mpr (AList.mem_lookup_iff.mp hu)
    obtain ⟨k, hk⟩ := List.mem_iff_getElem?.mp he
    exact ⟨(x.1.fork (k + 2), j),
      mem_listCalls.mpr ⟨_, List.mk_mem_zipIdx_iff_getElem?.mpr hk, hd, rfl⟩, rfl⟩

/-! ## What is listed -/

variable (net usage idle) in
/-- What is said of a node by the list of `i`. -/
inductive Says (i : ι) : NodeInfo υ → Prop
  | online {node : Str} {j : ι} (h : Relation.ReflTransGen (net.Passes node) i j)
    (hj : node = net.getNodeName j) : Says i ⟨node, .online, usage j⟩
  | offline {node : Str}
    (h : ∀ j, Relation.ReflTransGen (net.Passes node) i j → node ≠ net.getNodeName j) :
    Says i ⟨node, .offline, idle⟩

variable {info : NodeInfo υ}

/-- What is said next door is said here, of a node that is asked for there. -/
theorem Says.of_passes (hp : net.Passes info.name i j) (h : net.Says usage idle j info) :
    net.Says usage idle i info := by
  cases h with
  | online h hj => exact .online (.head hp h) hj
  | offline h =>
      refine .offline fun k hk ↦ ?_
      rcases hk.cases_head with rfl | ⟨j', hj', hk⟩
      · exact hp.1
      · obtain rfl := passes_unique _ _ _ hp hj'
        exact h k hk

theorem Says.of_not_passes (hne : node ≠ net.getNodeName i) (h : ∀ j, ¬net.Passes node i j) :
    net.Says usage idle i ⟨node, .offline, idle⟩ := by
  refine .offline fun k hk ↦ ?_
  rcases hk.cases_head with rfl | ⟨j, hj, -⟩
  · exact hne
  · exact absurd hj (h j)

/-- The list of `i` is about itself and its remote supervisors, each once. -/
def Covers (net : Federation ι) (i : ι) (l : List (NodeInfo υ)) : Prop :=
  (l.map (·.name)).Perm (net.getNodeName i :: (net.remoteSupervisors i).keys)

/-- What is said of a remote supervisor. -/
theorem says_remote (hself : net.getNodeName i ∉ net.remoteSupervisors i)
    (hu : (net.remoteSupervisors i).lookup node = some url)
    (hlist : ∀ j l, list j = some l → net.Covers j l ∧ ∀ info ∈ l, net.Says usage idle j info)
    (h : (net.listRemoteNodeInfo list node url).map (·.getD ⟨node, .offline, idle⟩) = some info) :
    info.name = node ∧ net.Says usage idle i info := by
  have hne : node ≠ net.getNodeName i := by
    rintro rfl
    exact hself (AList.lookup_isSome.mp (Option.isSome_of_eq_some hu))
  cases hd : net.dial url with
  | none =>
      rw [listRemoteNodeInfo_none hd] at h
      obtain rfl := Option.some.inj h
      refine ⟨rfl, .of_not_passes hne ?_⟩
      rintro j ⟨-, url', hu', hd'⟩
      obtain rfl := Option.some.inj (hu.symm.trans hu')
      rw [hd] at hd'
      cases hd'
  | some j =>
      have hp : net.Passes node i j := ⟨hne, url, hu, hd⟩
      rw [listRemoteNodeInfo_some hd, Option.map_map] at h
      obtain ⟨l, hl, rfl⟩ := Option.map_eq_some_iff.mp h
      obtain ⟨hcov, hsaid⟩ := hlist j l hl
      show ((l.find? _).getD _).name = node ∧ net.Says usage idle i ((l.find? _).getD _)
      cases hf : l.find? fun info ↦ decide (info.name = node) with
      | some info =>
          obtain rfl : info.name = node := by simpa using List.find?_some hf
          exact ⟨rfl, (hsaid info (List.mem_of_find?_eq_some hf)).of_passes hp⟩
      | none =>
          -- the list is about all nodes that a request could be handed on for
          have hnot : node ∉ net.getNodeName j :: (net.remoteSupervisors j).keys := by
            rw [← hcov.mem_iff, List.mem_map]
            rintro ⟨info, hinfo, rfl⟩
            exact of_decide_eq_false (Bool.of_not_eq_true (List.find?_eq_none.mp hf info hinfo)) rfl
          obtain ⟨hj, hk⟩ := not_or.mp (mt List.mem_cons.mpr hnot)
          refine ⟨rfl, ?_⟩
          refine Says.of_passes hp (.of_not_passes hj ?_)
          rintro k ⟨-, url', hu', -⟩
          exact hk (AList.lookup_isSome.mp (Option.isSome_of_eq_some hu'))

theorem says_of_mem (hself : ∀ j, net.getNodeName j ∉ net.remoteSupervisors j)
    (h : net.listNodes usage idle n (rt, i) = some l) :
    net.Covers i l ∧ ∀ info ∈ l, net.Says usage idle i info := by
  induction n generalizing rt i l with
  | zero => cases h
  | succ n ih =>
      obtain ⟨nodes, hnodes, rfl⟩ := Option.map_eq_some_iff.mp h
      have hspec (e : ((_ : Str) × Str) × Nat)
          (he : e ∈ ((rt.fork 0).range (net.remoteSupervisors i).entries).zipIdx)
          (info : NodeInfo υ) (hinfo : (net.listRemoteNodeInfo
            (fun j ↦ net.listNodes usage idle n (rt.fork (e.2 + 2), j)) e.1.1 e.1.2).map
              (·.getD ⟨e.1.1, .offline, idle⟩) = some info) :
          info.name = e.1.1 ∧ net.Says usage idle i info :=
        says_remote (hself i) (AList.mem_lookup_iff.mpr (Runtime.mem_range.mp
          (List.fst_mem_of_mem_zipIdx he))) (fun _ _ hl ↦ ih hl) hinfo
      constructor
      · have hnames : nodes.map (·.name) =
            ((rt.fork 0).range (net.remoteSupervisors i).entries).map (·.1) := by
          rw [map_eq_of_mapM hnodes fun e he info hinfo ↦ (hspec e he info hinfo).1]
          conv_rhs => rw [← List.zipIdx_map_fst 0 ((rt.fork 0).range _), List.map_map]
          rfl
        rw [Covers]
        refine (((rt.fork 1).sortStr_perm _ _).map _).trans ?_
        rw [List.map_cons, hnames]
        exact (((rt.fork 0).range_perm _).map _).cons _
      · intro info hinfo
        rcases List.mem_cons.mp (Runtime.mem_sortStr.mp hinfo) with rfl | hinfo
        · exact .online .refl rfl
        · obtain ⟨e, he, hinfo⟩ := exists_of_mem_mapM hnodes hinfo
          exact (hspec e he info hinfo).2

theorem pairwise_listNodes (h : net.listNodes usage idle n (rt, i) = some l) :
    l.Pairwise fun a b ↦ a.name ≤ b.name := by
  cases n with
  | zero => cases h
  | succ n =>
      obtain ⟨nodes, -, rfl⟩ := Option.map_eq_some_iff.mp h
      exact Runtime.pairwise_sortStr _ _ _

/-! ## Pinging -/

section Ping

variable {σ : Type w} {w w' : σ} {up : Bool}

theorem returns_ping (hn : UrlSafe node)
    (h : Returns (net.request .pingNode · i node () w) (up, w')) :
    w' = w ∧ (up ↔ ∃ j, Relation.ReflTransGen (net.Passes node) i j ∧
      node = net.getNodeName j) := by
  obtain ⟨n, j, y, hr, he, hx⟩ := (returns_request hn trivial).mp h
  have hid : (Prod.map (Service.pingNode (ι := ι) (σ := σ)).reply id)^[n] y = y :=
    Function.iterate_fixed rfl n
  rw [hid] at hx
  subst hx
  have hend : ∀ k, Relation.ReflTransGen (net.Passes node) i k → node = net.getNodeName k →
      k = j := fun k hk hname ↦ by
    obtain ⟨m, hm⟩ := Relay.exists_route hk
    exact (hm.unique passes_unique (fun _ h ↦ h.1 hname) hr he.not_passes).2
  generalize hy : (up, w') = y at he
  cases he with
  | served hj =>
      obtain ⟨rfl, rfl⟩ := Prod.mk.inj hy
      exact ⟨rfl, iff_of_true rfl ⟨j, hr.reflTransGen, hj⟩⟩
  | unknown hj =>
      obtain ⟨rfl, rfl⟩ := Prod.mk.inj hy
      refine ⟨rfl, iff_of_false Bool.false_ne_true ?_⟩
      rintro ⟨k, hk, hname⟩
      exact hj (hend k hk hname ▸ hname)
  | failed hj =>
      obtain ⟨rfl, rfl⟩ := Prod.mk.inj hy
      refine ⟨rfl, iff_of_false Bool.false_ne_true ?_⟩
      rintro ⟨k, hk, hname⟩
      exact hj (hend k hk hname ▸ hname)

theorem Passes.remote (h : net.Passes node i j) : net.Remote i j := by
  obtain ⟨-, url, hu, hd⟩ := h
  exact ⟨node, url, hu, hd⟩

theorem exists_returns_ping (h : Acc (fun j i ↦ net.Remote i j) i) (hn : UrlSafe node) (w : σ) :
    ∃ x, Returns (net.request .pingNode · i node () w) x := by
  rw [request_eq hn trivial, Relay.exists_returns_ask, passes_hop]
  exact Subrelation.accessible (fun h ↦ h.remote) h

/-- The status is what a ping returns. -/
theorem Says.ping (h : net.Says usage idle i info) (hacc : Acc (fun j i ↦ net.Remote i j) i)
    (hn : UrlSafe info.name) (w : σ) :
    Returns (net.request .pingNode · i info.name () w) (decide (info.status = .online), w) := by
  obtain ⟨⟨up, w'⟩, hx⟩ := exists_returns_ping hacc hn w
  obtain ⟨rfl, hup⟩ := returns_ping hn hx
  have : up = decide (info.status = .online) := by
    rw [Bool.eq_iff_iff, hup, decide_eq_true_iff]
    cases h with
    | online h hj => exact iff_of_true ⟨_, h, hj⟩ rfl
    | offline h => exact iff_of_false (by rintro ⟨j, hj, hname⟩; exact h j hj hname) (by rintro ⟨⟩)
  exact this ▸ hx

/-- **Listing and pinging agree.**  If no supervisor has its own name among its remotes, then
`ListNodes` comes to an end exactly if no chain of remote supervisors goes on for ever.  It has the
supervisor itself and each of its remotes once, sorted by name; a node is online if a ping for it is
answered, and then the usage is that of the supervisor whose name it is. -/
theorem listNodes_ping (hself : ∀ j, net.getNodeName j ∉ net.remoteSupervisors j) (rt : Runtime)
    (i : ι) :
    ((∃ l, Returns (net.listNodes usage idle · (rt, i)) l) ↔
      Acc (fun j i ↦ net.Remote i j) i) ∧
    ∀ l, Returns (net.listNodes usage idle · (rt, i)) l →
      l.Pairwise (fun a b ↦ a.name ≤ b.name) ∧ net.Covers i l ∧
      ∀ info ∈ l, (UrlSafe info.name → ∀ w : σ, Returns (net.request .pingNode · i info.name () w)
          (decide (info.status = .online), w)) ∧
        (info.status = .online → ∃ j, Relation.ReflTransGen (net.Passes info.name) i j ∧
          info.name = net.getNodeName j ∧ info.usage = usage j) := by
  have hiff : (∃ l, Returns (net.listNodes usage idle · (rt, i)) l) ↔ _ :=
    recursion_listNodes.exists_returns_iff.trans acc_listCalls
  refine ⟨hiff, fun l hl ↦ ?_⟩
  have hacc := hiff.mp ⟨l, hl⟩
  obtain ⟨n, hn⟩ := hl
  have hn := hn n (Nat.le_refl n)
  obtain ⟨hcov, hsaid⟩ := says_of_mem hself hn
  refine ⟨pairwise_listNodes hn, hcov, fun info hinfo ↦
    ⟨fun hsafe w ↦ (hsaid info hinfo).ping hacc hsafe w, fun hs ↦ ?_⟩⟩
  cases hsaid info hinfo with
  | online h hj => exact ⟨_, h, hj, rfl⟩
  | offline => cases hs

end Ping

theorem self_notMem_chain (j : Str) : chain.getNodeName j ∉ chain.remoteSupervisors j := by
  intro h
  have h : j ∈ (chain.remoteSupervisors j).keys := h
  unfold chain at h
  dsimp only [id] at h
  split at h
  · rename_i hj
    subst hj
    revert h
    decide
  · split at h
    · rename_i hj
      subst hj
      revert h
      decide
    · cases h

/-- `c` is online in the list of `a`, which `b` has told it. -/
theorem listNodes_ping_chain : ∃ l, Returns (chain.listNodes id [] · (.inOrder, str "a")) l ∧
    ⟨str "c", .online, str "c"⟩ ∈ l ∧
      Returns (chain.request .pingNode · (str "a") (str "c") () ()) (true, ()) := by
  have hlist : chain.listNodes id [] 3 (.inOrder, str "a") =
      some [⟨str "a", .online, str "a"⟩, ⟨str "c", .online, str "c"⟩] := by
    decide
  have hl := recursion_listNodes.returns hlist
  refine ⟨_, hl, List.mem_of_getElem? (i := 1) rfl, ?_⟩
  exact (((listNodes_ping self_notMem_chain .inOrder (str "a")).2 _ hl).2.2 _
    (List.mem_of_getElem? (i := 1) rfl)).1 (by decide) ()

end Federation

end Supervisord
