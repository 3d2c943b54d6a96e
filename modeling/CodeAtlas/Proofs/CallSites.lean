import CodeAtlas.Proofs.Redirection
import CodeAtlas.Proofs.Tracing

/-!
# Calls that merging keeps

Merging knows an edge by its kind and by what its ends lead to. Of all edges that it cannot tell
apart it keeps the first, with everything else that was recorded of it, and drops the others. So of
several calls from one function to another only the one that was recorded first is left, and a
question for the calls of a function is answered with one line for each function that it calls.
-/

namespace CodeAtlas.Graph

open Fallible Merge List Json Endpoints Table

variable {fragments : List Fragment} {ns edges : List Json} {idOf : Table Key Json}
  {g edge merged : Json} {m : Nodes} {s word : String}

namespace Merge

variable {e : Json}

/-! ## References without a table -/

/-- What a reference leads to: the canonical id of the last node that bears it, or itself if there
is none. -/
def landing (ns : List Json) (v : Json) : Json :=
  ((v.key?.bind (bearer? ns)).bind fun n ↦ (assignedId n).toOption).getD v

/-- Both ends and the kind that an edge gets among some nodes. -/
def landed (ns : List Json) (e : Json) : Endpoints :=
  ⟨landing ns (written e).source, landing ns (written e).target, (written e).kind⟩

lemma NodesFiled.redirected_eq (h : NodesFiled ns m) (e : Json) :
    redirected m.idOf e = landed ns e := by
  have hresolve (v : Json) : resolve m.idOf v = landing ns v := by
    rw [resolve, landing]
    cases v.key? with
    | none => rfl
    | some k => rw [Option.bind_some, Option.bind_some, h.get?_idOf]
  rw [redirected, landed, hresolve, hresolve]

/-- The first of some edges that merging cannot tell from the given one. -/
def firstLike (ns es : List Json) (e : Json) : Json :=
  (es.find? fun e' ↦ linkKey? (landed ns e') = linkKey? (landed ns e)).getD e

/-! ## The second pass -/

lemma foldlM_allEdges {m m' : Edges} (h : fragments.foldlM (addFragmentEdges idOf) m = .ok m') :
    (allEdges fragments).foldlM (addEdge idOf) m = .ok m' := by
  induction fragments generalizing m with
  | nil => exact h
  | cons f rest ih =>
    rw [foldlM_cons, bind_eq_ok] at h
    obtain ⟨middle, hf, hrest⟩ := h
    obtain ⟨-, -, -, hedges⟩ := addFragmentEdges_eq_ok hf
    rw [allEdges, flatMap_cons, foldlM_append, bind_eq_ok]
    exact ⟨middle, hedges, ih hrest⟩

/-- Every edge that is there comes from the first one of its keys that was met, and all keys that
were met are noted. -/
structure FirstKept (idOf : Table Key Json) (es : List Json) (m : Edges) : Prop where
  noted : ∀ e ∈ es, ∃ key ∈ m.seen, linkKey? (redirected idOf e) = some key
  first : ∀ edge ∈ m.edges, ∃ e, edge = outcome idOf e ∧
    (es.find? fun e' ↦ linkKey? (redirected idOf e') = linkKey? (redirected idOf e)) = some e

lemma FirstKept.addEdge {es : List Json} {m m' : Edges}
    (h : FirstKept idOf es m) (he : addEdge idOf m e = .ok m') : FirstKept idOf (es ++ [e]) m' := by
  obtain ⟨key, hkey, hrun⟩ := addEdge_spec he
  obtain rfl := Except.ok.inj (he.symm.trans (hrun m))
  have hfirst : ∀ edge ∈ m.edges, ∃ e₀, edge = outcome idOf e₀ ∧ ((es ++ [e]).find? fun e' ↦
      linkKey? (redirected idOf e') = linkKey? (redirected idOf e₀)) = some e₀ := by
    intro edge hedge
    obtain ⟨e₀, rfl, hfind⟩ := h.first edge hedge
    exact ⟨e₀, rfl, by rw [find?_append, hfind, Option.some_or]⟩
  by_cases hseen : key ∈ m.seen
  · rw [if_pos hseen]
    refine ⟨fun e' he' ↦ ?_, hfirst⟩
    rcases mem_append.1 he' with he' | he'
    · exact h.noted e' he'
    · obtain rfl := mem_singleton.1 he'
      exact ⟨key, hseen, hkey⟩
  · rw [if_neg hseen]
    refine ⟨fun e' he' ↦ ?_, fun edge hedge ↦ ?_⟩
    · rcases mem_append.1 he' with he' | he'
      · obtain ⟨key', hkey', heq⟩ := h.noted e' he'
        exact ⟨key', mem_cons_of_mem _ hkey', heq⟩
      · obtain rfl := mem_singleton.1 he'
        exact ⟨key, mem_cons_self, hkey⟩
    · rcases mem_append.1 hedge with hedge | hedge
      · exact hfirst edge hedge
      · obtain rfl := mem_singleton.1 hedge
        refine ⟨e, rfl, ?_⟩
        -- No edge of the same keys was met before, or the keys would have been noted.
        have hnone :
            (es.find? fun e' ↦ linkKey? (redirected idOf e') = linkKey? (redirected idOf e)) =
              none := by
          rw [find?_eq_none]
          intro e' he' hsame
          obtain ⟨key', hkey', heq⟩ := h.noted e' he'
          rw [of_decide_eq_true hsame, hkey, Option.some.injEq] at heq
          exact hseen (heq ▸ hkey')
        rw [find?_append, hnone, Option.none_or, find?_singleton]
        simp

lemma firstKept_of_run {m : Edges} (h : fragments.foldlM (addFragmentEdges idOf) {} = .ok m) :
    FirstKept idOf (allEdges fragments) m :=
  foldlM_invariant (FirstKept idOf) (fun _ _ _ _ hmet he ↦ hmet.addEdge he)
    ⟨by simp, by simp⟩ (foldlM_allEdges h)

lemma member?_outcome {name : String} (hname : name ∉ fixedFields) (idOf : Table Key Json)
    (e : Json) : (outcome idOf e).member? name = e.member? name := by
  have hmembers : e.member? name = get? e.members name := by
    cases e <;> rfl
  have hne (other : String) (hother : other ∈ fixedFields) : other ≠ name :=
    fun heq ↦ hname (heq ▸ hother)
  rw [hmembers, outcome, member?_obj, cons_append, cons_append, cons_append,
    nil_append, get?_cons, if_neg (hne "source" (by decide)), get?_cons,
    if_neg (hne "target" (by decide)), get?_cons, if_neg (hne "type" (by decide)),
    get?_filter fun key ↦ !fixedFields.contains key, if_pos (by simpa using hname)]

/-! ## One edge for each kind and pair of ends -/

lemma filter_eq_singleton {α β : Type} [DecidableEq β] {f : α → β} {xs : List α} {x : α}
    (hnodup : (xs.map f).Nodup) (hx : x ∈ xs) : (xs.filter fun y ↦ f y = f x) = [x] := by
  obtain ⟨before, after, rfl⟩ := append_of_mem hx
  rw [map_append, map_cons, nodup_middle, nodup_cons, mem_append] at hnodup
  have hnone (ys : List α) (hys : f x ∉ ys.map f) : (ys.filter fun y ↦ f y = f x) = [] := by
    refine filter_eq_nil_iff.2 fun y hy hsame ↦ hys ?_
    exact of_decide_eq_true hsame ▸ mem_map_of_mem hy
  rw [filter_append, hnone before fun h ↦ hnodup.1 (.inl h), filter_cons_of_pos (by simp),
    hnone after fun h ↦ hnodup.1 (.inr h), nil_append]

/-- Of the edges that merging cannot tell apart the first comes out, and nothing else. -/
lemma EdgesLinked.filter_like {es : List Json} {m : Edges} (h : EdgesLinked idOf es m)
    (hfirst : FirstKept idOf es m) (he : e ∈ es) :
    ∃ e₀, (es.find? fun e' ↦ linkKey? (redirected idOf e') = linkKey? (redirected idOf e)) =
      some e₀ ∧ (m.edges.filter fun edge ↦ linkKey? (endsOf edge) = linkKey? (redirected idOf e)) =
        [outcome idOf e₀] := by
  obtain ⟨edge, hedge, key, hedgeKey, hkey⟩ := h.complete e he
  obtain ⟨e₀, rfl, hfind⟩ := hfirst.first edge hedge
  have hsame : linkKey? (redirected idOf e₀) = linkKey? (redirected idOf e) := by
    rw [← endsOf_outcome, hedgeKey, hkey]
  have hnodup : (m.edges.map fun edge ↦ linkKey? (endsOf edge)).Nodup := by
    rw [h.keyed]
    exact (nodup_reverse.2 h.distinct).map (Option.some_injective _)
  refine ⟨e₀, hsame ▸ hfind, ?_⟩
  rw [← hsame, ← endsOf_outcome]
  exact filter_eq_singleton hnodup hedge

end Merge

/-- Both ends and the kind that an edge gets when fragments are merged. -/
def endsIn (fragments : List Fragment) (e : Json) : Endpoints := landed (allNodes fragments) e

/-- The first edge of some fragments that merging cannot tell from the given one. -/
def firstIn (fragments : List Fragment) (e : Json) : Json :=
  firstLike (allNodes fragments) (allEdges fragments) e

/-- What a merged graph keeps of each edge: exactly one edge has its kind and what its ends lead to,
and the further members of this edge are those of the first such edge. -/
lemma merge_filter_like (h : merge fragments = .ok merged) : ∃ edges, edgesOf merged = .ok edges ∧
      ∀ e ∈ allEdges fragments, ∃ edge,
        (edges.filter fun edge ↦ linkKey? (endsOf edge) = linkKey? (endsIn fragments e)) = [edge] ∧
        ∀ name ∉ fixedFields, edge.member? name = (firstIn fragments e).member? name := by
  simp only [merge, bind_eq_ok, pure_eq_ok] at h
  obtain ⟨filed, hfiled, linked, hlinked, rfl⟩ := h
  have hredirected := (nodesFiled_of_run hfiled).redirected_eq
  refine ⟨linked.edges, rfl, fun e he ↦ ?_⟩
  obtain ⟨e₀, hfind, hfilter⟩ :=
    (edgesLinked_of_run hlinked).filter_like (firstKept_of_run hlinked) he
  simp only [hredirected] at hfind hfilter
  refine ⟨outcome filed.idOf e₀, hfilter, fun name hname ↦ ?_⟩
  rw [member?_outcome hname, firstIn, firstLike, hfind, Option.getD_some]

/-! ## Ends that are texts -/

/-- Both ends and the kind are texts, and none of them is empty. -/
def Endpoints.AreTexts (e : Endpoints) : Prop :=
  ∃ source target kind : String, e = ⟨.str source, .str target, .str kind⟩ ∧
    source ≠ "" ∧ target ≠ "" ∧ kind ≠ ""

variable {far : Endpoints → Json} {e : Endpoints}

namespace Merge

lemma assignedId_ne_empty {n : Json} {id : String} (h : assignedId n = .ok id) : id ≠ "" := by
  have hne {s : String} (hcolon : ':' ∈ s.toList) : s ≠ "" := by
    rintro rfl
    simp at hcolon
  obtain ⟨type, -, h⟩ := bind_eq_ok.1 h
  simp only [canonicalId, bind_eq_ok, getD_eq_ok, get_eq_ok] at h
  obtain ⟨name, -, path, -, raw, -, h⟩ := h
  split at h
  · cases pure_eq_ok.1 h
    exact hne (by simp)
  · obtain ⟨isScoped, hscoped, h⟩ := bind_eq_ok.1 h
    split at h
    next htrue =>
      obtain rfl := pure_eq_ok.1 h
      rintro rfl
      rw [htrue] at hscoped
      cases hscoped
    next =>
      split at h
      · cases pure_eq_ok.1 h
        exact hne (by simp)
      · cases pure_eq_ok.1 h
        exact hne (by simp)

lemma NodesFiled.landing_text (h : NodesFiled ns m) (hs : s ≠ "") :
    ∃ t, landing ns s = .str t ∧ t ≠ "" := by
  rw [landing, key?_str, Option.bind_some]
  cases hlast : bearer? ns (.str s) with
  | none => exact ⟨s, rfl, hs⟩
  | some n =>
    obtain ⟨id, hid⟩ := h.assigned n (mem_of_mem_filter (mem_of_getLast? hlast))
    rw [Option.bind_some, hid]
    exact ⟨id, rfl, assignedId_ne_empty hid⟩

lemma NodesFiled.areTexts_landed (h : NodesFiled ns m) {e : Json} (he : (written e).AreTexts) :
    (landed ns e).AreTexts := by
  obtain ⟨source, target, kind, hwritten, hsource, htarget, hkind⟩ := he
  obtain ⟨s, hs, hs'⟩ := h.landing_text hsource
  obtain ⟨t, ht, ht'⟩ := h.landing_text htarget
  exact ⟨s, t, kind, by rw [landed, hwritten, hs, ht], hs', ht', hkind⟩

end Merge

lemma linkKey?_eq_iff {e' : Endpoints} (he : e.AreTexts) (he' : e'.AreTexts) :
    linkKey? e = linkKey? e' ↔ e = e' := by
  obtain ⟨s, t, k, rfl, -⟩ := he
  obtain ⟨s', t', k', rfl, -⟩ := he'
  simp only [linkKey?, key?_str, Option.some.injEq, Prod.mk.injEq, Key.str.injEq, mk.injEq,
    Json.str.injEq]
  tauto

lemma isObject_of_areTexts (h : (endsOf edge).AreTexts) : edge.IsObject := by
  obtain ⟨s, t, k, hends, -⟩ := h
  have hsource : (edge.member? "source").getD .null = .str s := congrArg source hends
  cases hmember : edge.member? "source" with
  | none =>
    rw [hmember] at hsource
    cases hsource
  | some v => exact isObject_of_member? hmember

lemma endpoints_eq_endsOf (h : (endsOf edge).AreTexts) : endpoints edge = .ok (endsOf edge) := by
  have hedge := isObject_of_areTexts h
  obtain ⟨s, t, k, hends, hs, ht, hk⟩ := h
  have hget (name : String) : edge.get name = .ok ((edge.member? name).getD .null) :=
    get_eq_ok.2 ⟨hedge, rfl⟩
  have htruthy (text : String) (htext : text ≠ "") : (Json.str text).truthy = true := by
    simpa [Json.truthy] using htext
  have hsource := congrArg source hends
  have htarget := congrArg target hends
  have hkind := congrArg Endpoints.kind hends
  simp only [endsOf] at hsource htarget hkind
  simp only [endpoints, hget, bind, Except.bind, hsource, htarget, hkind,
    orElse_of_truthy (htruthy _ hs), orElse_of_truthy (htruthy _ ht),
    orElse_of_truthy (htruthy _ hk), hends]
  rfl

/-! ## Questions for calls -/

/-- An entry tells of the node at one end of an edge, and the line of the edge. -/
structure Tells (far : Endpoints → Json) (word : String) (edge entry : Json) : Prop where
  other : entry.member? word = some (far (endsOf edge))
  line : entry.member? "call_line" = some ((edge.member? "call_line").getD .null)

lemma exists_callEntry (hg : nodesOf g = .ok ns) (hns : ∀ n ∈ ns, HasTextId n)
    (hedge : edge.IsObject)
    (hfar : far (endsOf edge) = .str s)
    (hword : "call_line" ∉ [word, word ++ "_name", word ++ "_type"]) :
    ∃ entry, callEntry g edge (far (endsOf edge)) word = .ok entry ∧ Tells far word edge entry := by
  have hnode : node? g s = .ok _ := bind_eq_ok.2 ⟨ns, hg, findNode?_eq hns s⟩
  have hline : edge.get "call_line" = .ok ((edge.member? "call_line").getD .null) :=
    get_eq_ok.2 ⟨hedge, rfl⟩
  have hentry : ∃ name type, callEntry g edge s word = .ok (.obj [(word, .str s),
      (word ++ "_name", name), (word ++ "_type", type),
      ("call_line", (edge.member? "call_line").getD .null)]) := by
    cases hfound : ns.find? fun n ↦ n.member? "id" = some (.str s) with
    | none =>
      simp only [callEntry, hnode, hfound, hline, bind, Except.bind]
      exact ⟨_, _, rfl⟩
    | some n =>
      obtain ⟨text, htext⟩ := hns n (mem_of_find?_eq_some hfound)
      have hget (name : String) : n.get name = .ok ((n.member? name).getD .null) :=
        get_eq_ok.2 ⟨isObject_of_member? htext, rfl⟩
      simp only [callEntry, hnode, hfound, hline, hget, bind, Except.bind]
      exact ⟨_, _, rfl⟩
  obtain ⟨name, type, hentry⟩ := hentry
  simp only [mem_cons, not_mem_nil, or_false, not_or] at hword
  refine ⟨_, hfar ▸ hentry, ?_, ?_⟩
  · rw [hfar, member?_obj, get?_cons, if_pos rfl]
  · rw [member?_obj, get?_cons, if_neg (Ne.symm hword.1), get?_cons,
      if_neg (Ne.symm hword.2.1), get?_cons, if_neg (Ne.symm hword.2.2), get?_cons, if_pos rfl]

lemma exists_filterMapM {α β : Type} {f : α → Except Fault (Option β)} {p : α → Bool}
    {R : α → β → Prop} {xs : List α}
    (hsome : ∀ x ∈ xs, p x = true → ∃ y, f x = .ok (some y) ∧ R x y)
    (hnone : ∀ x ∈ xs, p x = false → f x = .ok none) :
    ∃ ys, xs.filterMapM f = .ok ys ∧ List.Forall₂ R (xs.filter p) ys := by
  induction xs with
  | nil => exact ⟨[], rfl, .nil⟩
  | cons x rest ih =>
    obtain ⟨hsomeX, hsome⟩ := forall_mem_cons.1 hsome
    obtain ⟨hnoneX, hnone⟩ := forall_mem_cons.1 hnone
    obtain ⟨ys, hrun, hys⟩ := ih hsome hnone
    rw [filterMapM_cons, hrun, filter_cons]
    cases hp : p x with
    | true =>
      obtain ⟨y, hy, hR⟩ := hsomeX hp
      rw [hy]
      exact ⟨y :: ys, rfl, .cons hR hys⟩
    | false =>
      rw [hnoneX hp]
      exact ⟨ys, rfl, hys⟩

lemma exists_entries (hg : nodesOf g = .ok ns) (hns : ∀ n ∈ ns, HasTextId n)
    (hedges : ∀ edge ∈ edges, (endsOf edge).AreTexts) (near : Endpoints → Json)
    (hfar : ∀ e, e.AreTexts → ∃ s, far e = .str s)
    (hword : "call_line" ∉ [word, word ++ "_name", word ++ "_type"]) (id : Json) :
    ∃ entries, (edges.filterMapM fun edge ↦ do
        let e ← endpoints edge
        if (near e).same id && e.kind.same "calls" then
          return some (← callEntry g edge (far e) word)
        else return none : Except Fault (List Json)) = .ok entries ∧
      List.Forall₂ (Tells far word) (edges.filter fun edge ↦
        (near (endsOf edge)).same id && (endsOf edge).kind.same "calls") entries := by
  refine exists_filterMapM (fun edge hedge hmine ↦ ?_) fun edge hedge hother ↦ ?_
  · have htexts := hedges edge hedge
    obtain ⟨s, hs⟩ := hfar _ htexts
    obtain ⟨entry, hentry, htells⟩ :=
      exists_callEntry hg hns (isObject_of_areTexts htexts) hs hword
    refine ⟨entry, ?_, htells⟩
    rw [endpoints_eq_endsOf htexts]
    refine (if_pos hmine).trans ?_
    rw [hentry]
    rfl
  · rw [endpoints_eq_endsOf (hedges edge hedge)]
    exact if_neg (by rw [hother]; exact Bool.false_ne_true)

lemma Endpoints.AreTexts.exists_source (h : e.AreTexts) : ∃ s, e.source = .str s := by
  obtain ⟨s, -, -, rfl, -⟩ := h
  exact ⟨s, rfl⟩

lemma Endpoints.AreTexts.exists_target (h : e.AreTexts) : ∃ s, e.target = .str s := by
  obtain ⟨-, t, -, rfl, -⟩ := h
  exact ⟨t, rfl⟩

lemma exists_callGraph (hg : nodesOf g = .ok ns) (hns : ∀ n ∈ ns, HasTextId n)
    (hedgesOf : edgesOf g = .ok edges) (hedges : ∀ edge ∈ edges, (endsOf edge).AreTexts)
    (id : Json) : ∃ answer calls callers, callGraph g id = .ok answer ∧
      answer.member? "calls" = some (.arr calls) ∧ answer.member? "called_by" =
      some (.arr callers) ∧ List.Forall₂ (Tells target "target") (edges.filter fun edge ↦
        (endsOf edge).source.same id && (endsOf edge).kind.same "calls") calls ∧
      List.Forall₂ (Tells source "caller") (edges.filter fun edge ↦
        (endsOf edge).target.same id && (endsOf edge).kind.same "calls") callers := by
  have hword : "call_line" ∉ ["target", "target" ++ "_name", "target" ++ "_type"] := by decide
  have hword' : "call_line" ∉ ["caller", "caller" ++ "_name", "caller" ++ "_type"] := by decide
  obtain ⟨calls, hcalls, hcallsTell⟩ :=
    exists_entries hg hns hedges source (fun _ h ↦ h.exists_target) hword id
  obtain ⟨callers, hcallers, hcallersTell⟩ :=
    exists_entries hg hns hedges target (fun _ h ↦ h.exists_source) hword' id
  exact ⟨_, calls, callers, bind_eq_ok.2 ⟨edges, hedgesOf, bind_eq_ok.2 ⟨calls, hcalls,
    bind_eq_ok.2 ⟨callers, hcallers, rfl⟩⟩⟩, rfl, rfl, hcallsTell, hcallersTell⟩

/-- Exactly one entry is about a node, and it tells a line. -/
def ListsOnce (entries : List Json) (word : String) (other line : Json) : Prop :=
  ∃ entry, (entries.filter fun c ↦ c.member? word = some other) = [entry] ∧
    entry.member? "call_line" = some line

lemma listsOnce {entries : List Json} {ends : Endpoints} (near far : Endpoints → Json)
    (hedges : ∀ edge ∈ edges, (endsOf edge).AreTexts) (hends : ends.AreTexts)
    (hkind : ends.kind = "calls") (hnear : ∀ e, e.AreTexts → ∃ s, near e = .str s)
    (hsame : ∀ e e', near e = near e' ∧ far e = far e' ∧ e.kind = e'.kind ↔ e = e')
    (hone : (edges.filter fun edge ↦ linkKey? (endsOf edge) = linkKey? ends) = [edge])
    (htells : List.Forall₂ (Tells far word) (edges.filter fun edge ↦
      (near (endsOf edge)).same (near ends) && (endsOf edge).kind.same "calls") entries) :
    ListsOnce entries word (far ends) ((edge.member? "call_line").getD .null) := by
  -- Of the calls at the near end, only the one edge has the far end as well.
  have hfilter : ((edges.filter fun edge ↦ (near (endsOf edge)).same (near ends) &&
      (endsOf edge).kind.same "calls").filter fun edge ↦ far (endsOf edge) = far ends) =
      [edge] := by
    rw [filter_filter, ← hone]
    refine filter_congr fun edge hedge ↦ ?_
    obtain ⟨s, hs⟩ := hnear ends hends
    rw [Bool.eq_iff_iff, decide_eq_true_iff, linkKey?_eq_iff (hedges edge hedge) hends, ← hsame]
    simp only [Bool.and_eq_true, decide_eq_true_iff, hs, hkind, same_str]
    tauto
  have hrelated := rel_filter (R := Tells far word)
    (p := fun edge ↦ decide (far (endsOf edge) = far ends))
    (q := fun entry ↦ decide (entry.member? word = some (far ends))) ?_ htells
  · rw [hfilter] at hrelated
    obtain ⟨entry, _, htells, hnil, heq⟩ := forall₂_cons_left_iff.1 hrelated
    rw [forall₂_nil_left_iff.1 hnil] at heq
    exact ⟨entry, heq, htells.line⟩
  · intro edge entry htells
    simp only [decide_eq_true_iff, htells.other, Option.some.injEq]

/-- A merged graph has nodes with ids, and edges with texts if the fragments have. -/
lemma areTexts_of_merge (h : merge fragments = .ok merged) (hedges : edgesOf merged = .ok edges) :
    (∃ ns, nodesOf merged = .ok ns ∧ ∀ n ∈ ns, HasTextId n) ∧
      ((∀ e ∈ allEdges fragments, (written e).AreTexts) → (∀ edge ∈ edges, (endsOf edge).AreTexts) ∧
          ∀ e ∈ allEdges fragments, (endsIn fragments e).AreTexts) := by
  obtain ⟨filed, linked, hfiled, hlinked, hnodes, hedges'⟩ := merge_spec h
  cases hedges.symm.trans hedges'
  refine ⟨⟨_, hnodes, fun n hn ↦ ?_⟩, fun htexts ↦ ⟨fun edge hedge ↦ ?_, fun e he ↦ ?_⟩⟩
  · obtain ⟨⟨k, _⟩, hentry, rfl⟩ := mem_map.1 hn
    obtain ⟨id, -, hid⟩ := hfiled.labelled k _ hentry
    exact ⟨id, hid⟩
  · obtain ⟨e, he, hends⟩ := hlinked.sound edge hedge
    rw [hends, hfiled.redirected_eq]
    exact hfiled.areTexts_landed (htexts e he)
  · exact hfiled.areTexts_landed (htexts e he)

/-- Of all edges of one kind whose ends lead to the same, merging keeps exactly one, with the line
and whatever else was recorded of the first of them; so the line of a call is kept just if the first
such call has it. Where ends and kinds are texts, a question for the calls of the caller or of the
callee lists each such call once, with that line. -/
theorem merge_keeps_first_call (fragments : List Fragment) :
    ((∀ n ∈ allNodes fragments, ∃ id, rawId n = .str id) →
      ((∃ merged, merge fragments = .ok merged) ↔ ∀ f ∈ fragments, f.IsMergeable)) ∧
    ∀ merged, merge fragments = .ok merged → ∃ edges, edgesOf merged = .ok edges ∧
      ∀ e ∈ allEdges fragments, ∃ edge,
        (edges.filter fun edge ↦ linkKey? (endsOf edge) = linkKey? (endsIn fragments e)) = [edge] ∧
        (∀ name ∉ fixedFields, edge.member? name = (firstIn fragments e).member? name) ∧
        (∀ line, (∃ edge ∈ edges, linkKey? (endsOf edge) = linkKey? (endsIn fragments e) ∧
            edge.member? "call_line" = some line) ↔
          (firstIn fragments e).member? "call_line" = some line) ∧
        ((∀ e ∈ allEdges fragments, (written e).AreTexts) → (written e).kind = .str "calls" →
          (∃ answer calls, callGraph merged (endsIn fragments e).source = .ok answer ∧
            answer.member? "calls" = some (.arr calls) ∧
            ListsOnce calls "target" (endsIn fragments e).target
              (((firstIn fragments e).member? "call_line").getD .null)) ∧
          ∃ answer callers, callGraph merged (endsIn fragments e).target = .ok answer ∧
            answer.member? "called_by" = some (.arr callers) ∧
            ListsOnce callers "caller" (endsIn fragments e).source
              (((firstIn fragments e).member? "call_line").getD .null)) := by
  refine ⟨merge_succeeds_iff, fun merged h ↦ ?_⟩
  obtain ⟨edges, hedges, hlike⟩ := merge_filter_like h
  refine ⟨edges, hedges, fun e he ↦ ?_⟩
  obtain ⟨edge, hone, hmembers⟩ := hlike e he
  have hline := hmembers "call_line" (by decide)
  have hmem (edge' : Json) : edge' ∈ edges ∧ linkKey? (endsOf edge') =
    linkKey? (endsIn fragments e) ↔
      edge' = edge := by
    have hsingle : edge' ∈ [edge] ↔ edge' = edge := mem_singleton
    rw [← hone, mem_filter, decide_eq_true_iff] at hsingle
    exact hsingle
  refine ⟨edge, hone, hmembers, fun line ↦ ?_, fun htexts hkind ↦ ?_⟩
  · simp only [← and_assoc, hmem, exists_eq_left, hline]
  · obtain ⟨⟨ns, hnodes, hns⟩, hall⟩ := areTexts_of_merge h hedges
    obtain ⟨hedgesTexts, hends⟩ := hall htexts
    obtain ⟨out, calls, -, hout, hcalls, -, htargets, -⟩ :=
      exists_callGraph hnodes hns hedges hedgesTexts (endsIn fragments e).source
    obtain ⟨into, -, callers, hinto, -, hcallers, -, hsources⟩ :=
      exists_callGraph hnodes hns hedges hedgesTexts (endsIn fragments e).target
    rw [← hline]
    refine ⟨⟨out, calls, hout, hcalls, ?_⟩, into, callers, hinto, hcallers, ?_⟩
    · refine listsOnce Endpoints.source Endpoints.target hedgesTexts (hends e he) hkind
        (fun _ h ↦ h.exists_source) ?_ hone htargets
      rintro ⟨⟩ ⟨⟩
      simp only [Endpoints.mk.injEq]
    · refine listsOnce Endpoints.target Endpoints.source hedgesTexts (hends e he) hkind
        (fun _ h ↦ h.exists_target) ?_ hone hsources
      rintro ⟨⟩ ⟨⟩
      simp only [Endpoints.mk.injEq]
      tauto

/-! ## A function that is called twice -/

def callee : Json :=
  .obj [("id", .str "a.py::f"), ("node_type", .str "Function"), ("name", .str "f")]

def caller : Json :=
  .obj [("id", .str "a.py::g"), ("node_type", .str "Function"), ("name", .str "g")]

/-- A call on some line. -/
def callOn (line : Int) : Json :=
  .obj [("edge", .str "calls"), ("from", .str "a.py::g"), ("to", .str "a.py::f"),
    ("call_line", .int line)]

def twiceCalling : Fragment :=
  ⟨"fragment_python.json", .ok (.obj [("nodes", .arr [callee, caller]),
    ("edges", .arr [callOn 6, callOn 7])])⟩

/-- The edge that comes out. -/
def keptCall : Json :=
  .obj [("source", .str "a.py::g"), ("target", .str "a.py::f"), ("type", .str "calls"),
    ("call_line", .int 6)]

lemma merge_twiceCalling : ∃ merged, merge [twiceCalling] = .ok merged ∧
    edgesOf merged = .ok [keptCall] := ⟨_, rfl, rfl⟩

theorem merge_keeps_first_call_twiceCalling :
    callOn 7 ∈ allEdges [twiceCalling] ∧ firstIn [twiceCalling] (callOn 7) = callOn 6 ∧
      ∃ merged answer calls, merge [twiceCalling] = .ok merged ∧
        callGraph merged (.str "a.py::g") = .ok answer ∧
        answer.member? "calls" = some (.arr calls) ∧
        ListsOnce calls "target" (.str "a.py::f") (.int 6) := by
  obtain ⟨merged, hmerged, -⟩ := merge_twiceCalling
  have hcall : callOn 7 ∈ allEdges [twiceCalling] := mem_cons_of_mem _ mem_cons_self
  have htexts : ∀ e ∈ allEdges [twiceCalling], (written e).AreTexts := by
    intro e he
    have hwritten : written e = ⟨.str "a.py::g", .str "a.py::f", .str "calls"⟩ := by
      rcases mem_cons.1 he with rfl | he
      · rfl
      · obtain rfl := mem_singleton.1 he
        rfl
    exact ⟨_, _, _, hwritten, by decide, by decide, by decide⟩
  have hfirst : firstIn [twiceCalling] (callOn 7) = callOn 6 := rfl
  obtain ⟨_, -, hkept⟩ := (merge_keeps_first_call [twiceCalling]).2 merged hmerged
  obtain ⟨_, -, -, -, hcalls⟩ := hkept _ hcall
  obtain ⟨⟨answer, calls, hanswer, hlist, honce⟩, -⟩ := hcalls htexts rfl
  rw [hfirst] at honce
  exact ⟨hcall, hfirst, merged, answer, calls, hmerged, hanswer, hlist, honce⟩

/-- The later of both calls is lost. -/
theorem merge_drops_second_call :
    callOn 7 ∈ allEdges [twiceCalling] ∧ (written (callOn 7)).kind = .str "calls" ∧
      (callOn 7).member? "call_line" = some (.int 7) ∧
      ∃ merged edges, merge [twiceCalling] = .ok merged ∧ edgesOf merged = .ok edges ∧
        ¬∃ edge ∈ edges, endsOf edge = endsIn [twiceCalling] (callOn 7) ∧
          edge.member? "call_line" = some (.int 7) := by
  obtain ⟨merged, hmerged, hedges⟩ := merge_twiceCalling
  refine ⟨mem_cons_of_mem _ mem_cons_self, rfl, rfl, merged, _, hmerged, hedges, ?_⟩
  rintro ⟨edge, hedge, -, hline⟩
  obtain rfl := mem_singleton.1 hedge
  have hkept : keptCall.member? "call_line" = some (.int 6) := rfl
  exact absurd (hkept.symm.trans hline) (by decide)

end CodeAtlas.Graph
