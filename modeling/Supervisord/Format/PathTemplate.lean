import Mathlib.Data.List.Basic

/-!
# Path templates

A template is a sequence of literals and variables, and a router looks for the first of its routes
whose template the segments of a path match.  If no two templates have a path in common, a router
finds the route that a path was made from, and the values of its variables.
-/

universe u v

inductive Segment (α : Type u) where
  | lit (s : α)
  | var

abbrev PathTemplate (α : Type u) := List (Segment α)

namespace PathTemplate

variable {α : Type u}

/-- The segments, with values for the variables. -/
def fill : PathTemplate α → List α → List α
  | [], _ => []
  | .lit s :: t, args => s :: fill t args
  | .var :: t, a :: args => a :: fill t args
  | .var :: _, [] => []

theorem mem_fill {t : PathTemplate α} {args : List α} {s : α} (h : s ∈ t.fill args) :
    .lit s ∈ t ∨ s ∈ args := by
  induction t generalizing args with
  | nil => cases h
  | cons seg t ih =>
      cases seg with
      | lit s' =>
          rcases List.mem_cons.mp h with rfl | h
          · exact .inl List.mem_cons_self
          · exact (ih h).imp_left (List.mem_cons_of_mem _)
      | var =>
          cases args with
          | nil => cases h
          | cons a args =>
              rcases List.mem_cons.mp h with rfl | h
              · exact .inr List.mem_cons_self
              · exact (ih h).imp (List.mem_cons_of_mem _) (List.mem_cons_of_mem _)

/-- How many variables there are. -/
def arity : PathTemplate α → Nat
  | [] => 0
  | .lit _ :: t => arity t
  | .var :: t => arity t + 1

variable [DecidableEq α]

/-- The values of the variables, each of which must be `ok`. -/
def vars (ok : α → Bool) : PathTemplate α → List α → Option (List α)
  | [], [] => some []
  | .lit s :: t, a :: path => if a = s then vars ok t path else none
  | .var :: t, a :: path => if ok a then (vars ok t path).map (a :: ·) else none
  | [], _ :: _ => none
  | _ :: _, [] => none

/-- The templates have no path in common, for one is longer or they differ in a literal. -/
def disjoint : PathTemplate α → PathTemplate α → Bool
  | [], [] => false
  | .lit s :: t, .lit s' :: t' => s ≠ s' || disjoint t t'
  | .lit _ :: t, .var :: t' => disjoint t t'
  | .var :: t, .lit _ :: t' => disjoint t t'
  | .var :: t, .var :: t' => disjoint t t'
  | [], _ :: _ => true
  | _ :: _, [] => true

variable {ok : α → Bool} {t t' : PathTemplate α} {args args' path : List α}

theorem vars_fill (hok : ∀ a ∈ args, ok a) (hn : t.arity = args.length) :
    t.vars ok (t.fill args) = some args := by
  induction t generalizing args with
  | nil =>
      obtain rfl := List.eq_nil_of_length_eq_zero hn.symm
      rfl
  | cons seg t ih =>
      cases seg with
      | lit s =>
          rw [fill, vars, if_pos rfl]
          exact ih hok hn
      | var =>
          cases args with
          | nil => cases hn
          | cons a args =>
              obtain ⟨ha, hargs⟩ := List.forall_mem_cons.mp hok
              rw [fill, vars, if_pos ha, ih hargs (Nat.succ.inj hn), Option.map_some]

theorem vars_of_disjoint (hd : t.disjoint t') (h : t.vars ok path = some args) :
    t'.vars ok path = none := by
  induction t generalizing t' path args with
  | nil =>
      cases path with
      | cons => cases h
      | nil =>
          cases t' with
          | nil => cases hd
          | cons seg' t' => cases seg' <;> rfl
  | cons seg t ih =>
      cases path with
      | nil => cases seg <;> cases h
      | cons a path =>
          cases t' with
          | nil => rfl
          | cons seg' t' =>
              cases seg with
              | lit s =>
                  obtain ⟨rfl, hp⟩ := Option.ite_none_right_eq_some.mp h
                  cases seg' with
                  | lit s' =>
                      rw [vars]
                      by_cases hs : a = s'
                      · rw [if_pos hs]
                        exact ih ((Bool.or_eq_true_iff.mp hd).resolve_left (by simp [hs])) hp
                      · exact if_neg hs
                  | var =>
                      rw [vars, ih hd hp]
                      exact ite_self none
              | var =>
                  obtain ⟨-, hm⟩ := Option.ite_none_right_eq_some.mp h
                  obtain ⟨args, hp, rfl⟩ := Option.map_eq_some_iff.mp hm
                  cases seg' with
                  | lit s' =>
                      rw [vars, ih hd hp]
                      exact ite_self none
                  | var =>
                      rw [vars, ih hd hp]
                      exact ite_self none

end PathTemplate

/-! ## Routers -/

structure Route (α : Type u) (μ : Type v) (η : Type v) where
  template : PathTemplate α
  methods : List μ
  handler : η

namespace Route

variable {α : Type u} {μ η : Type v} [DecidableEq α] [DecidableEq μ] {ok : α → Bool}

/-- What the first of the routes that match makes of a request. -/
def find (ok : α → Bool) (routes : List (Route α μ η)) (m : μ) (path : List α) :
    Option (η × List α) :=
  routes.findSome? fun r ↦
    if m ∈ r.methods then (r.template.vars ok path).map (r.handler, ·) else none

/-- No request matches two routes. -/
def Unambiguous (routes : List (Route α μ η)) : Prop :=
  routes.Pairwise fun r r' ↦ r'.template.disjoint r.template

instance (routes : List (Route α μ η)) : Decidable (Unambiguous routes) :=
  inferInstanceAs (Decidable (List.Pairwise _ _))

/-- **Routing.**  A path made from a template is routed back to it. -/
theorem find_fill {routes : List (Route α μ η)} (hu : Unambiguous routes) {r : Route α μ η}
    (hr : r ∈ routes) {m : μ} (hm : m ∈ r.methods) {args : List α} (hok : ∀ a ∈ args, ok a)
    (hn : r.template.arity = args.length) :
    find ok routes m (r.template.fill args) = some (r.handler, args) := by
  have hv := PathTemplate.vars_fill (t := r.template) hok hn
  unfold find
  induction routes with
  | nil => cases hr
  | cons r' routes ih =>
      obtain ⟨hhead, hu⟩ := List.pairwise_cons.mp hu
      rw [List.findSome?_cons]
      rcases List.mem_cons.mp hr with rfl | hr
      · rw [if_pos hm, hv]
        rfl
      · rw [PathTemplate.vars_of_disjoint (hhead r hr) hv, Option.map_none, ite_self]
        exact ih hu hr

end Route
