import Supervisord.Go.Index
import Supervisord.Go.Range
import Supervisord.Go.Spaces
import Supervisord.Go.Split

/-!
# The remote supervisors of a configuration

The setting `remotes` is a list of names with hosts and ports, and `parseRemoteSupervisors` makes a
map of it, from the names to the URLs.
-/

namespace Supervisord

open Go Str

/-- A round of `parseRemoteSupervisors`. -/
def addRemote (remoteSupervisors : Map Str Str) (field : Str) : Map Str Str :=
  match splitColon field.trimSpace with
  | some namePorts =>
    let name := namePorts.1.trimSpace
    let port := str "http://" ++ namePorts.2.trimSpace
    remoteSupervisors.insert name port
  | none => remoteSupervisors

def parseRemoteSupervisors (remotes : Str) : Map Str Str := (remotes.split 44).foldl addRemote ∅

variable {m : Map Str Str} {name port k : Str} {es : List (Str × Str)}

theorem addRemote_colon (h : 58 ∉ name) : addRemote m (name ++ 58 :: port) =
    m.insert name.trimSpace (str "http://" ++ port.trimSpace) := by
  obtain ⟨s, t, htrim, ⟨a, ha, rfl⟩, b, hb, rfl⟩ :=
    exists_trimSpace_cons (c := 58) (by decide) name port
  rw [addRemote, htrim, splitColon_append fun hm ↦ h (List.mem_append_right a hm),
    trimSpace_append ha, trimSpace_concat hb]

/-- A field without a colon is passed over. -/
theorem addRemote_of_notMem {field : Str} (h : 58 ∉ field) : addRemote m field = m := by
  rw [addRemote, splitColon_of_notMem fun hm ↦ h ((trimSpace_sublist field).subset hm)]

/-- The field says that the node is at a host and port. -/
def SaysAt (field node hostPort : Str) : Prop :=
  ∃ name port, field = name ++ 58 :: port ∧ 58 ∉ name ∧ trimSpace name = node ∧
    trimSpace port = hostPort

variable {field node hostPort url : Str} {fields : List Str}

theorem SaysAt.unique {node' hostPort' : Str} (h : SaysAt field node hostPort)
    (h' : SaysAt field node' hostPort') : node = node' ∧ hostPort = hostPort' := by
  obtain ⟨name, port, rfl, hname, rfl, rfl⟩ := h
  obtain ⟨name', port', heq, hname', rfl, rfl⟩ := h'
  have hsplit := congrArg splitColon heq
  rw [splitColon_append hname, splitColon_append hname', Option.some.injEq,
    Prod.mk.injEq] at hsplit
  obtain ⟨rfl, rfl⟩ := hsplit
  exact ⟨rfl, rfl⟩

theorem saysAt_or_notMem (field : Str) :
    (∃ node hostPort, SaysAt field node hostPort) ∨ 58 ∉ field := by
  rcases index_byte_cases field 58 with ⟨h, -⟩ | ⟨l, r, rfl, hl, -⟩
  · exact .inr h
  · exact .inl ⟨_, _, l, r, rfl, hl, rfl, rfl⟩

theorem not_saysAt_of_notMem (h : 58 ∉ field) : ¬SaysAt field node hostPort := by
  rintro ⟨name, port, rfl, -⟩
  exact h (List.mem_append_right name List.mem_cons_self)

theorem addRemote_of_saysAt (h : SaysAt field node hostPort) :
    addRemote m field = m.insert node (str "http://" ++ hostPort) := by
  obtain ⟨name, port, rfl, hname, rfl, rfl⟩ := h
  exact addRemote_colon hname

/-- The last of the fields that say where the node is. -/
def LastAt (fields : List Str) (node hostPort : Str) : Prop :=
  ∃ pre field post, fields = pre ++ field :: post ∧ SaysAt field node hostPort ∧
    ∀ f ∈ post, ∀ h, ¬SaysAt f node h

theorem not_lastAt_nil : ¬LastAt [] node hostPort := by
  rintro ⟨pre, field, post, h, -⟩
  simp at h

theorem lastAt_concat : LastAt (fields ++ [field]) node hostPort ↔ SaysAt field node hostPort ∨
    (∀ h, ¬SaysAt field node h) ∧ LastAt fields node hostPort := by
  constructor
  · rintro ⟨pre, f, post, heq, hf, hpost⟩
    rcases List.eq_nil_or_concat post with rfl | ⟨post, g, rfl⟩
    · obtain ⟨rfl, he⟩ := List.append_inj' heq rfl
      obtain rfl := List.singleton_inj.mp he
      exact .inl hf
    · rw [List.concat_eq_append] at heq hpost
      rw [← List.cons_append, ← List.append_assoc] at heq
      obtain ⟨rfl, he⟩ := List.append_inj' heq rfl
      obtain rfl := List.singleton_inj.mp he
      refine .inr ⟨hpost field (List.mem_append_right post List.mem_cons_self), pre, f, post, rfl,
        hf, fun f' hf' ↦ hpost f' (List.mem_append_left _ hf')⟩
  · rintro (h | ⟨hnot, pre, f, post, rfl, hf, hpost⟩)
    · exact ⟨fields, field, [], rfl, h, by simp⟩
    · refine ⟨pre, f, post ++ [field], by simp, hf, fun g hg h ↦ ?_⟩
      rcases List.mem_append.mp hg with hg | hg
      · exact hpost g hg h
      · exact List.mem_singleton.mp hg ▸ hnot h

theorem lookup_foldl_addRemote : (fields.foldl addRemote ∅).lookup node = some url ↔
    ∃ hostPort, url = str "http://" ++ hostPort ∧ LastAt fields node hostPort := by
  induction fields using List.reverseRecOn with
  | nil => simp [not_lastAt_nil]
  | append_singleton fields field ih =>
      rw [List.foldl_append, List.foldl_cons, List.foldl_nil]
      simp only [lastAt_concat]
      rcases saysAt_or_notMem field with ⟨node', hostPort, h⟩ | hnot
      · rw [addRemote_of_saysAt h]
        by_cases hn : node = node'
        · subst hn
          rw [AList.lookup_insert, Option.some.injEq]
          constructor
          · rintro rfl
            exact ⟨hostPort, rfl, .inl h⟩
          · rintro ⟨hostPort', rfl, h' | ⟨h', -⟩⟩
            · rw [(h.unique h').2]
            · exact absurd h (h' hostPort)
        · have hnot (h' : Str) : ¬SaysAt field node h' := fun hs ↦ hn (h.unique hs).1.symm
          rw [AList.lookup_insert_ne hn, ih]
          simp only [hnot, not_false_eq_true, implies_true, true_and, false_or]
      · rw [addRemote_of_notMem hnot, ih]
        simp [not_saysAt_of_notMem hnot]

/-- The setting for nodes at hosts and ports. -/
def remotesOf (es : List (Str × Str)) : Str := [44].intercalate (es.map fun e ↦ e.1 ++ 58 :: e.2)

theorem split_remotesOf (hes : es ≠ []) (hfree : ∀ e ∈ es, 44 ∉ e.1 ∧ 44 ∉ e.2) :
    (remotesOf es).split 44 = es.map fun e ↦ e.1 ++ 58 :: e.2 := by
  refine split_eq_iff.mpr ⟨by simpa using hes, fun f hf ↦ ?_, rfl⟩
  obtain ⟨e, he, rfl⟩ := List.mem_map.mp hf
  obtain ⟨hname, hport⟩ := hfree e he
  simp [hname, hport]

/-- **The remote supervisors.**  The URL of a node is that in the last field of the setting that
names it in front of its first colon.  A setting made from nodes of different names has each of
them, whatever spaces there are around the names and the hosts. -/
theorem parseRemoteSupervisors_lookup :
    (∀ remotes node url, (parseRemoteSupervisors remotes).lookup node = some url ↔
      ∃ hostPort, url = str "http://" ++ hostPort ∧ LastAt (remotes.split 44) node hostPort) ∧
    ∀ es : List (Str × Str), (∀ e ∈ es, (44 ∉ e.1 ∧ 44 ∉ e.2) ∧ 58 ∉ e.1) →
      (es.map fun e ↦ e.1.trimSpace).Nodup → ∀ e ∈ es,
        (parseRemoteSupervisors (remotesOf es)).lookup e.1.trimSpace =
          some (str "http://" ++ e.2.trimSpace) := by
  refine ⟨fun _ _ _ ↦ lookup_foldl_addRemote, fun es hes hnodup e he ↦ ?_⟩
  have hsplit := split_remotesOf (List.ne_nil_of_mem he) fun e he ↦ (hes e he).1
  refine lookup_foldl_addRemote.mpr ⟨_, rfl, ?_⟩
  rw [hsplit]
  obtain ⟨pre, post, rfl⟩ := List.append_of_mem he
  have hsaid (e' : Str × Str) (he' : e' ∈ pre ++ e :: post) :
      SaysAt (e'.1 ++ 58 :: e'.2) e'.1.trimSpace e'.2.trimSpace :=
    ⟨e'.1, e'.2, rfl, (hes e' he').2, rfl, rfl⟩
  refine ⟨pre.map fun e ↦ e.1 ++ 58 :: e.2, e.1 ++ 58 :: e.2, post.map fun e ↦ e.1 ++ 58 :: e.2,
    by simp, hsaid e he, fun f hf h hsay ↦ ?_⟩
  obtain ⟨e', he', rfl⟩ := List.mem_map.mp hf
  have hname := ((hsaid e' (List.mem_append_right pre (List.mem_cons_of_mem e he'))).unique hsay).1
  rw [List.map_append, List.map_cons] at hnodup
  have hnot := (List.nodup_cons.mp (List.nodup_append.mp hnodup).2.1).1
  exact hnot (hname ▸ List.mem_map_of_mem he')

/-- ` a : h:1, b:h:2` -/
theorem parseRemoteSupervisors_lookup_two :
    (parseRemoteSupervisors (remotesOf [(str " a ", str " h:1"), (str " b", str "h:2")])).lookup
      (str "b") = some (str "http://h:2") :=
  parseRemoteSupervisors_lookup.2 [(str " a ", str " h:1"), (str " b", str "h:2")] (by decide)
    (by decide) (str " b", str "h:2") (by decide)

end Supervisord
