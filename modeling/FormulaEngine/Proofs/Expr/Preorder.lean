import FormulaEngine.Proofs.Expr.Sites
import Mathlib.Data.List.Induction
import Mathlib.Data.List.Lex
import Mathlib.Data.Option.Basic
import Mathlib.Logic.Relation

/-!
# Expressions in preorder

The preorder of an expression goes through all places in it in lexicographic order, in which a place
comes before those below it. So whatever is found first in preorder is found at the least place, and
nothing that an expression is made of is passed over, whichever form it is a part of.
-/

namespace FormulaEngine.Expr

open Relation

/-- What an expression is directly made of, form by form. -/
inductive HasPart : Expr → Expr → Prop where
  | owner (target : Expr) (name : String) : HasPart (.member target name) target
  | operand (op : UnaryOp) (operand : Expr) : HasPart (.unary op operand) operand
  | lhs (op : BinaryOp) (lhs rhs : Expr) : HasPart (.binary op lhs rhs) lhs
  | rhs (op : BinaryOp) (lhs rhs : Expr) : HasPart (.binary op lhs rhs) rhs
  | condition (condition consequent alternative : Expr) :
    HasPart (.conditional condition consequent alternative) condition
  | consequent (condition consequent alternative : Expr) :
    HasPart (.conditional condition consequent alternative) consequent
  | alternative (condition consequent alternative : Expr) :
    HasPart (.conditional condition consequent alternative) alternative
  | subject (subject : Expr) (cases : List (Expr × Expr)) (fallback : Option Expr) :
    HasPart (.switch subject cases fallback) subject
  | pattern {subject pattern value : Expr} {cases : List (Expr × Expr)} {fallback : Option Expr}
      (h : (pattern, value) ∈ cases) : HasPart (.switch subject cases fallback) pattern
  | caseValue {subject pattern value : Expr} {cases : List (Expr × Expr)} {fallback : Option Expr}
      (h : (pattern, value) ∈ cases) : HasPart (.switch subject cases fallback) value
  | otherwise (subject : Expr) (cases : List (Expr × Expr)) (fallback : Expr) :
    HasPart (.switch subject cases (some fallback)) fallback
  | item {item : Expr} {items : List Expr} (h : item ∈ items) : HasPart (.list items) item
  | field {name : String} {value : Expr} {fields : List (String × Expr)}
      (h : (name, value) ∈ fields) : HasPart (.object fields) value
  | argument {function : String} {arg : Expr} {args : List Expr} (h : arg ∈ args) :
    HasPart (.call function args) arg
  | awaited (operand : Expr) : HasPart (.await operand) operand
  | target (target fallback : Expr) : HasPart (.default target fallback) target
  | fallback (target fallback : Expr) : HasPart (.default target fallback) fallback

/-- What an expression is made of at any depth, and the expression itself. -/
abbrev Includes : Expr → Expr → Prop := ReflTransGen HasPart

/-- A node cannot be evaluated, whatever its parts are, and what is said of it. -/
inductive Complains : Expr → String → Prop where
  | ident : Complains (.ident "") "empty identifier"
  | member (target : Expr) : Complains (.member target "") "empty member name"
  | call (args : List Expr) : Complains (.call "" args) "empty function name"
  | await {operand : Expr} (h : ∀ function args, operand ≠ .call function args) :
    Complains (.await operand) "only host function calls can be awaited"

variable {e part node : Expr} {site other : Site} {k : Nat} {items : List Expr}
  {message name : String}

/-! ### Parts -/

theorem mem_children_iff : part ∈ e.children ↔ HasPart e part := by
  constructor
  · intro h
    cases e with
    | literal _ | ident _ => exact absurd h List.not_mem_nil
    | member target name =>
      obtain rfl := List.mem_singleton.mp h
      exact .owner part name
    | unary op operand =>
      obtain rfl := List.mem_singleton.mp h
      exact .operand op part
    | binary op lhs rhs =>
      rcases List.mem_pair.mp h with rfl | rfl
      · exact .lhs op part rhs
      · exact .rhs op lhs part
    | conditional condition consequent alternative =>
      simp only [children, List.mem_cons, List.not_mem_nil, or_false] at h
      rcases h with rfl | rfl | rfl
      · exact .condition part consequent alternative
      · exact .consequent condition part alternative
      · exact .alternative condition consequent part
    | switch subject cases fallback =>
      simp only [children, List.cons_append, List.mem_cons, List.mem_append, List.mem_flatMap,
        List.not_mem_nil, or_false, Option.mem_toList] at h
      rcases h with rfl | ⟨c, hc, rfl | rfl⟩ | rfl
      · exact .subject part cases fallback
      · exact .pattern hc
      · exact .caseValue hc
      · exact .otherwise subject cases part
    | list items => exact .item h
    | object fields =>
      obtain ⟨field, hfield, rfl⟩ := List.mem_map.mp h
      exact .field hfield
    | call function args => exact .argument h
    | await operand =>
      obtain rfl := List.mem_singleton.mp h
      exact .awaited part
    | default target fallback =>
      rcases List.mem_pair.mp h with rfl | rfl
      · exact .target part fallback
      · exact .fallback target part
  · intro h
    cases h with
    | pattern h | caseValue h =>
      simp only [children, List.cons_append, List.mem_cons, List.mem_append, List.mem_flatMap]
      exact .inr (.inl ⟨_, h, by simp⟩)
    | field h => exact List.mem_map.mpr ⟨_, h, rfl⟩
    | item h | argument h => exact h
    | _ => simp [children]

theorem contains_iff : e.Contains part ↔ Includes e part := by
  constructor
  · intro h
    induction h with
    | refl e => exact .refl
    | step hchild _ ih => exact .head (mem_children_iff.mp hchild) ih
  · intro h
    induction h using ReflTransGen.head_induction_on with
    | refl => exact .refl part
    | head hpart _ ih => exact .step (mem_children_iff.mpr hpart) ih

/-! ### Places in order -/

/-- The places in an expression in preorder. -/
def sites (e : Expr) : List Site :=
  [] :: e.children.attach.zipIdx.flatMap fun child => (sites child.1.1).map (child.2 :: ·)
termination_by sizeOf e
decreasing_by exact sizeOf_child_lt child.1.2

/-- The places in some direct parts of an expression, the first of which has the number `k`. -/
def sitesFrom (k : Nat) : List Expr → List Site
  | [] => []
  | e :: rest => e.sites.map (k :: ·) ++ sitesFrom (k + 1) rest

theorem sitesFrom_eq :
    sitesFrom k items = (items.zipIdx k).flatMap fun child => child.1.sites.map (child.2 :: ·) := by
  induction items generalizing k with
  | nil => rfl
  | cons e rest ih => rw [sitesFrom, ih, List.zipIdx_cons, List.flatMap_cons]

theorem sites_eq (e : Expr) : e.sites = [] :: sitesFrom 0 e.children := by
  rw [sites, sitesFrom_eq]
  conv_rhs => rw [← List.attach_map_subtype_val e.children, List.zipIdx_map, List.flatMap_map]
  rfl

theorem mem_sitesFrom_iff : site ∈ sitesFrom k items ↔
    ∃ j child rest, items[j]? = some child ∧ rest ∈ child.sites ∧ site = (k + j) :: rest := by
  induction items generalizing k with
  | nil => simp [sitesFrom]
  | cons e rest ih =>
    rw [sitesFrom, List.mem_append, List.mem_map, ih]
    constructor
    · rintro (⟨below, hbelow, rfl⟩ | ⟨j, child, below, hchild, hbelow, rfl⟩)
      · exact ⟨0, e, below, rfl, hbelow, rfl⟩
      · exact ⟨j + 1, child, below, hchild, hbelow, by rw [Nat.add_right_comm, Nat.add_assoc]⟩
    · rintro ⟨j, child, below, hchild, hbelow, rfl⟩
      cases j with
      | zero =>
        obtain rfl := Option.some.inj hchild
        exact .inl ⟨below, hbelow, rfl⟩
      | succ j =>
        exact .inr ⟨j, child, below, hchild, hbelow, by rw [Nat.add_right_comm, Nat.add_assoc]⟩

theorem mem_sites_iff : site ∈ e.sites ↔ ∃ part, e.part? site = some part := by
  induction e using induction_parts generalizing site with
  | h e ih =>
    rw [sites_eq, List.mem_cons, mem_sitesFrom_iff]
    cases site with
    | nil => simp [part?]
    | cons j rest =>
      have hchild : ∀ child, e.children[j]? = some child →
          (rest ∈ child.sites ↔ ∃ part, child.part? rest = some part) := fun child h =>
        ih child (List.mem_of_getElem? h) child (.refl child)
      simp only [part?, Option.bind_eq_some_iff]
      constructor
      · rintro (h | ⟨i, child, below, hi, hbelow, heq⟩)
        · exact absurd h (List.cons_ne_nil j rest)
        · obtain ⟨rfl, rfl⟩ := List.cons.inj heq
          rw [Nat.zero_add] at hchild ⊢
          obtain ⟨part, hpart⟩ := (hchild child hi).mp hbelow
          exact ⟨part, child, hi, hpart⟩
      · rintro ⟨part, child, hi, hpart⟩
        exact .inr ⟨j, child, rest, hi, (hchild child hi).mpr ⟨part, hpart⟩, by rw [Nat.zero_add]⟩

theorem pairwise_sitesFrom (h : ∀ child ∈ items, child.sites.Pairwise (· < ·)) :
    (sitesFrom k items).Pairwise (· < ·) := by
  induction items generalizing k with
  | nil => exact .nil
  | cons e rest ih =>
    refine List.pairwise_append.mpr ⟨List.pairwise_map.mpr ?_,
      ih fun child hchild => h child (List.mem_cons_of_mem _ hchild),
      fun site hsite other hother => ?_⟩
    · exact (h e List.mem_cons_self).imp fun hlt => List.cons_lt_cons_iff.mpr (.inr ⟨rfl, hlt⟩)
    · obtain ⟨below, -, rfl⟩ := List.mem_map.mp hsite
      obtain ⟨j, -, below', -, -, rfl⟩ := mem_sitesFrom_iff.mp hother
      exact List.cons_lt_cons_iff.mpr (.inl (by omega))

/-- Places come before those below them and behind those of earlier parts. -/
theorem pairwise_sites (e : Expr) : e.sites.Pairwise (· < ·) := by
  induction e using induction_parts with
  | h e ih =>
    rw [sites_eq]
    refine List.pairwise_cons.mpr ⟨fun site hsite => ?_,
      pairwise_sitesFrom fun child hchild => ih child hchild child (.refl child)⟩
    obtain ⟨j, -, below, -, -, rfl⟩ := mem_sitesFrom_iff.mp hsite
    exact List.nil_lt_cons _ _

theorem map_part?_sitesFrom {front : List Expr} (hchildren : e.children = front ++ items)
    (h : ∀ child ∈ items, child.sites.map child.part? = child.preorder.map some) :
    (sitesFrom front.length items).map e.part? = (items.flatMap preorder).map some := by
  induction items generalizing front with
  | nil => rfl
  | cons child rest ih =>
    have hchild : e.children[front.length]? = some child := by simp [hchildren]
    have hbelow : ∀ site, e.part? (front.length :: site) = child.part? site := fun site => by
      rw [part?, hchild, Option.bind_some]
    have hrest := @ih (front ++ [child]) (by simp [hchildren])
      fun child hmem => h child (List.mem_cons_of_mem _ hmem)
    rw [List.length_append, List.length_singleton] at hrest
    rw [sitesFrom, List.map_append, List.map_map, List.flatMap_cons, List.map_append, hrest,
      ← h child List.mem_cons_self]
    exact congrArg (· ++ _) (List.map_congr_left fun site _ => hbelow site)

/-- In preorder stands what is found at the places in their order. -/
theorem map_part?_sites (e : Expr) : e.sites.map e.part? = e.preorder.map some := by
  induction e using induction_parts with
  | h e ih =>
    rw [sites_eq, preorder_eq, List.map_cons, List.map_cons,
      ← @map_part?_sitesFrom e e.children [] rfl
        fun child hchild => ih child hchild child (.refl child)]
    rfl

theorem includes_iff_part? : Includes e part ↔ ∃ site, e.part? site = some part := by
  rw [← contains_iff, ← mem_preorder_iff, ← List.mem_map_of_injective (Option.some_injective _),
    ← map_part?_sites, List.mem_map]
  constructor
  · rintro ⟨site, -, hpart⟩
    exact ⟨site, hpart⟩
  · rintro ⟨site, hpart⟩
    exact ⟨site, mem_sites_iff.mpr ⟨part, hpart⟩, hpart⟩

/-- Each node in preorder has a place, and what does not stand in front of it has none before. -/
theorem exists_site_of_preorder {before after : List Expr}
    (h : e.preorder = before ++ node :: after) :
    ∃ site, e.part? site = some node ∧ ∀ other part, e.part? other = some part →
      part ∈ before ∨ other = site ∨ site < other := by
  have hsites := map_part?_sites e
  rw [h, List.map_append, List.map_cons, List.map_eq_append_iff] at hsites
  obtain ⟨front, others, hsplit, hfront, hothers⟩ := hsites
  obtain ⟨site, rest, rfl, hsite, -⟩ := List.map_eq_cons_iff.mp hothers
  refine ⟨site, hsite, fun other part hpart => ?_⟩
  have hmem : other ∈ front ++ site :: rest := hsplit ▸ mem_sites_iff.mpr ⟨part, hpart⟩
  have hpairwise := pairwise_sites e
  rw [hsplit] at hpairwise
  rcases List.mem_append.mp hmem with hmem | hmem
  · have hbefore : some part ∈ before.map some := hfront ▸ hpart ▸ List.mem_map_of_mem hmem
    exact .inl ((List.mem_map_of_injective (Option.some_injective _)).mp hbefore)
  · rcases List.mem_cons.mp hmem with rfl | hmem
    · exact .inr (.inl rfl)
    · have hlater := (List.pairwise_cons.mp (List.pairwise_append.mp hpairwise).2.1).1
      exact .inr (.inr (hlater other hmem))

/-! ### The first node that cannot be evaluated -/

/-- What is said of the node at the least place that has something said of it. -/
def FirstComplaint (e : Expr) (message : String) : Prop :=
  ∃ site part, e.part? site = some part ∧ part.Complains message ∧
    ∀ other < site, ∀ node, e.part? other = some node → ∀ another, ¬node.Complains another

theorem ownFlaw?_iff_complains :
    e.ownFlaw?.map Flaw.message = some message ↔ e.Complains message := by
  constructor
  · intro h
    obtain ⟨flaw, hflaw, rfl⟩ := Option.map_eq_some_iff.mp h
    cases e with
    | ident name =>
      obtain ⟨rfl, rfl⟩ : name = "" ∧ .emptyIdentifier = flaw := by simpa [ownFlaw?] using hflaw
      exact .ident
    | member target name =>
      obtain ⟨rfl, rfl⟩ : name = "" ∧ .emptyMember = flaw := by simpa [ownFlaw?] using hflaw
      exact .member target
    | call function args =>
      obtain ⟨rfl, rfl⟩ : function = "" ∧ .emptyFunction = flaw := by simpa [ownFlaw?] using hflaw
      exact .call args
    | await operand =>
      simp only [ownFlaw?, Option.ite_none_left_eq_some] at hflaw
      obtain ⟨hcall, hflaw⟩ := hflaw
      obtain rfl := Option.some.inj hflaw
      exact .await fun function args heq => hcall (isCall_iff.mpr ⟨function, args, heq⟩)
    | _ => exact absurd hflaw (by simp [ownFlaw?])
  · rintro (_ | _ | _ | h)
    · rfl
    · rfl
    · rfl
    · rename_i operand
      have hcall : ¬operand.isCall := fun hcall => by
        obtain ⟨function, args, heq⟩ := isCall_iff.mp hcall
        exact h function args heq
      simp [ownFlaw?, hcall, Flaw.message]

theorem ownFlaw?_eq_none_iff_complains : e.ownFlaw? = none ↔ ∀ message, ¬e.Complains message := by
  simp only [← ownFlaw?_iff_complains, ← Option.eq_none_iff_forall_ne_some, Option.map_eq_none_iff]

theorem Complains.message_eq {other : String} (h : e.Complains message) (h' : e.Complains other) :
    message = other :=
  Option.some.inj ((ownFlaw?_iff_complains.mpr h).symm.trans (ownFlaw?_iff_complains.mpr h'))

theorem FirstComplaint.message_eq {other : String} (h : e.FirstComplaint message)
    (h' : e.FirstComplaint other) : message = other := by
  obtain ⟨site, part, hpart, hcomplains, hfirst⟩ := h
  obtain ⟨site', part', hpart', hcomplains', hfirst'⟩ := h'
  rcases lt_trichotomy site site' with hlt | rfl | hlt
  · exact absurd hcomplains (hfirst' site hlt part hpart message)
  · obtain rfl := Option.some.inj (hpart.symm.trans hpart')
    exact hcomplains.message_eq hcomplains'
  · exact absurd hcomplains' (hfirst site' hlt part' hpart' other)

theorem firstComplaint_of_flaw? {flaw : Flaw} (h : e.flaw? = some flaw) :
    e.FirstComplaint flaw.message := by
  obtain ⟨before, node, after, hsplit, hnode, hbefore⟩ := List.findSome?_eq_some_iff.mp h
  obtain ⟨site, hsite, hplaces⟩ := exists_site_of_preorder hsplit
  refine ⟨site, node, hsite, ownFlaw?_iff_complains.mp (by rw [hnode, Option.map_some]),
    fun other hlt part hpart => ?_⟩
  rcases hplaces other part hpart with hmem | rfl | hgt
  · exact ownFlaw?_eq_none_iff_complains.mp (hbefore part hmem)
  · exact absurd hlt (lt_irrefl other)
  · exact absurd hlt (lt_asymm hgt)

theorem flaw?_ne_none_iff :
    e.flaw? ≠ none ↔ ∃ part message, Includes e part ∧ part.Complains message := by
  rw [ne_eq, flaw?, List.findSome?_eq_none_iff]
  simp only [mem_preorder_iff, contains_iff, ownFlaw?_eq_none_iff_complains]
  push Not
  exact exists_congr fun part => exists_and_left.symm

theorem flaw?_iff_firstComplaint :
    e.flaw?.map Flaw.message = some message ↔ e.FirstComplaint message := by
  constructor
  · intro h
    obtain ⟨flaw, hflaw, rfl⟩ := Option.map_eq_some_iff.mp h
    exact firstComplaint_of_flaw? hflaw
  · -- Only one message can come first, so it is enough that there is a flaw at all.
    intro hfirst
    have hne : e.flaw? ≠ none := by
      obtain ⟨site, part, hpart, hcomplains, -⟩ := hfirst
      exact flaw?_ne_none_iff.mpr ⟨part, message, includes_iff_part?.mpr ⟨site, hpart⟩, hcomplains⟩
    obtain ⟨flaw, hflaw⟩ := Option.ne_none_iff_exists'.mp hne
    rw [hflaw, Option.map_some, (firstComplaint_of_flaw? hflaw).message_eq hfirst]

/-! ### Names in the order of first use -/

theorem mem_distinct_iff {names : List String} : name ∈ distinct names ↔ name ∈ names := by
  simp [distinct, mem_foldl_distinct_iff]

theorem distinct_concat (names : List String) (name : String) :
    distinct (names ++ [name]) =
      if name ∈ distinct names then distinct names else distinct names ++ [name] := by
  rw [distinct, List.foldl_append]
  rfl

theorem nodup_distinct (names : List String) : (distinct names).Nodup := by
  induction names using List.reverseRecOn with
  | nil => exact List.nodup_nil
  | append_singleton names name ih =>
    rw [distinct_concat]
    split
    · exact ih
    · next hname => exact List.nodup_append.mpr ⟨ih, List.nodup_singleton name, by grind⟩

/-- Before a name that is kept stands no other one that is kept behind it. -/
theorem pairwise_distinct (names : List String) : (distinct names).Pairwise fun first second =>
    ∃ before after, names = before ++ first :: after ∧ second ∉ before := by
  induction names using List.reverseRecOn with
  | nil => exact .nil
  | append_singleton names name ih =>
    have hlonger : (distinct names).Pairwise fun first second =>
        ∃ before after, names ++ [name] = before ++ first :: after ∧ second ∉ before := by
      refine ih.imp ?_
      rintro first second ⟨before, after, rfl, hnot⟩
      exact ⟨before, after ++ [name], by simp, hnot⟩
    rw [distinct_concat]
    split
    · exact hlonger
    · next hname =>
      refine List.pairwise_append.mpr ⟨hlonger, List.pairwise_singleton _ name, ?_⟩
      intro first hfirst second hsecond
      obtain rfl := List.mem_singleton.mp hsecond
      obtain ⟨before, after, rfl⟩ := List.append_of_mem (mem_distinct_iff.mp hfirst)
      refine ⟨before, after ++ [second], by simp, fun hmem => hname (mem_distinct_iff.mpr ?_)⟩
      exact List.mem_append_left _ hmem

theorem readName?_eq_some_iff : e.readName? = some name ↔ e = .ident name := by
  cases e <;> simp [readName?]

/-- A name is first used before the ones that are listed behind it. -/
theorem pairwise_references (e : Expr) : e.references.Pairwise fun first second =>
    ∃ site, e.part? site = some (.ident first) ∧
      ∀ other, e.part? other = some (.ident second) → site < other := by
  have hnodup := nodup_distinct (e.preorder.filterMap readName?)
  refine (hnodup.and (pairwise_distinct _)).imp ?_
  rintro first second ⟨hne, before, after, hnames, hnot⟩
  obtain ⟨front, rest, hsplit, rfl, hrest⟩ := List.filterMap_eq_append_iff.mp hnames
  obtain ⟨skipped, node, others, rfl, hskipped, hnode, -⟩ := List.filterMap_eq_cons_iff.mp hrest
  obtain rfl := readName?_eq_some_iff.mp hnode
  rw [← List.append_assoc] at hsplit
  obtain ⟨site, hsite, hplaces⟩ := exists_site_of_preorder hsplit
  refine ⟨site, hsite, fun other hother => ?_⟩
  -- What stands in front of this place reads other names or none, so `second` has no place there.
  rcases hplaces other _ hother with hmem | rfl | hlt
  · rcases List.mem_append.mp hmem with hmem | hmem
    · exact (hnot (List.mem_filterMap.mpr ⟨.ident second, hmem, rfl⟩)).elim
    · exact absurd (hskipped (.ident second) hmem) (Option.some_ne_none second)
  · exact absurd (ident.inj (Option.some.inj (hsite.symm.trans hother))) hne
  · exact hlt

/-! ### What is known of an expression -/

/-- Whatever is found out about an expression before it is evaluated is found out of all it is made
of, and what comes first is what has the least place. -/
structure IsKnownByParts (e : Expr) : Prop where
  mem_children_iff : ∀ part, part ∈ e.children ↔ HasPart e part
  includes_iff : ∀ part, Includes e part ↔ ∃ site, e.part? site = some part
  sites_of_preorder : ∃ sites : List Site, sites.Pairwise (· < ·) ∧
    (∀ site, site ∈ sites ↔ ∃ part, e.part? site = some part) ∧
    sites.map e.part? = e.preorder.map some
  invalid_iff : e.flaw? ≠ none ↔ ∃ part message, Includes e part ∧ part.Complains message
  message_iff : ∀ message, e.flaw?.map Flaw.message = some message ↔ e.FirstComplaint message
  references_nodup : e.references.Nodup
  mem_references_iff : ∀ name, name ∈ e.references ↔ Includes e (.ident name)
  references_ordered : e.references.Pairwise fun first second =>
    ∃ site, e.part? site = some (.ident first) ∧
      ∀ other, e.part? other = some (.ident second) → site < other
  isAsync_iff : e.isAsync ↔ ∃ operand, Includes e (.await operand)

theorem isKnownByParts (e : Expr) : e.IsKnownByParts where
  mem_children_iff _ := mem_children_iff
  includes_iff _ := includes_iff_part?
  sites_of_preorder := ⟨e.sites, pairwise_sites e, fun _ => mem_sites_iff, map_part?_sites e⟩
  invalid_iff := flaw?_ne_none_iff
  message_iff _ := flaw?_iff_firstComplaint
  references_nodup := nodup_distinct _
  mem_references_iff _ := mem_references_iff.trans contains_iff
  references_ordered := pairwise_references e
  isAsync_iff := isAsync_iff.trans (exists_congr fun _ => contains_iff)

end FormulaEngine.Expr
