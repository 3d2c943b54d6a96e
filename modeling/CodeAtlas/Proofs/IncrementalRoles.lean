import CodeAtlas.Proofs.ChangeReport

/-!
# Giving roles again after a change

Roles given anew and roles taken over are compared here with those that all nodes would get if
everything were looked at. A node that is taken over keeps the roles it got in the older graph,
whatever has happened around it. A node that is looked at anew gets the roles it should, unless its
rules consult a node that was taken over and has changed its name or its place since.
-/

namespace CodeAtlas.Graph.Enrichment

open Fallible CodeAtlas.Graph.Topology Table

variable {old old' nodes : Table Key Json} {n raw report : Json} {t : Topology}
  {frameworks : List Reading} {k : Key}

/-! ## Full runs -/

/-- All edges and nodes of a graph, as rules look at them; nothing if the edges cannot be read. -/
def surroundings (raw : Json) (nodes : Table Key Json) : Topology :=
  (topologyOf { fresh := nodes } raw).toOption.getD {}

lemma surroundings_of_ok (h : topologyOf { fresh := nodes } raw = .ok t) :
    surroundings raw nodes = t := by
  rw [surroundings, h]
  rfl

lemma enriched_full {before g : Json} (hraw : Listed raw nodes)
    (hfull : isFull before report = true) (h : enriched raw before report frameworks = .ok g) :
    topologyOf { fresh := nodes } raw = .ok (surroundings raw nodes) ∧ ∃ done, Listed g done ∧
        Aligned (fun _ n m ↦ giveRoles (surroundings raw nodes) frameworks n = .ok m)
        nodes done := by
  obtain ⟨t, done, ht, hdone, haligned⟩ := enriched_of_full hraw.tabled hfull h
  rw [surroundings_of_ok ht]
  exact ⟨ht, done, hraw.of_aligned hdone haligned, haligned⟩

lemma wellFormed_surroundings (hlabelled : Labelled nodes)
    (h : topologyOf { fresh := nodes } raw = .ok (surroundings raw nodes)) :
    (surroundings raw nodes).WellFormed := wellFormed_topologyOf h hlabelled

/-! ## Looking at other nodes -/

/-- The ids that rules look up for a node. -/
def consulted (t : Topology) (n : Json) : List Json :=
  let id := (n.member? "id").getD .null
  (Topology.edgesAt t.leaving id ++ Topology.edgesAt t.arriving id ++ t.leavingFile id).map Prod.snd

lemma map_find? (ht : t.WellFormed) {γ : Type} (f : Json → γ) (v : Json) :
    (t.find? v).map f = v.key?.bind fun k ↦ (t.nodes.get? k).map f := by
  rw [find?]
  cases v.key? with
  | none => rfl
  | some k =>
    rw [Option.bind_some, Option.bind_some]
    cases hn : t.nodes.get? k with
    | none => rfl
    | some n =>
      obtain ⟨id, hid⟩ := ht.nodes k n hn
      rw [Option.filter_some, Json.truthy_of_member? hid, if_pos rfl]

lemma leavingFile_eq (t : Topology) (id : Json) :
    t.leavingFile id = (((t.fileOf? id).map (·.member? "id")).map fun fileId ↦
      edgesAt t.leaving (fileId.getD .null)).getD [] := by
  rw [leavingFile]
  cases t.fileOf? id <;> rfl

/-- The same node has the same view over the same edges if the nodes that its rules consult have the
same faces, and all nodes the same ids. -/
lemma viewOf_withNodes (ht : t.WellFormed) (hu : (t.withNodes nodes).WellFormed)
    (hids : ∀ k, (nodes.get? k).map (·.member? "id") = (t.nodes.get? k).map (·.member? "id"))
    (hfaces : ∀ v ∈ consulted t n, ∀ k, v.key? = some k →
      (nodes.get? k).map faceOf = (t.nodes.get? k).map faceOf) :
    viewOf (t.withNodes nodes) n = viewOf t n := by
  have hfind {γ : Type} (f : Json → γ) (v : Json)
      (hf : ∀ k, v.key? = some k → (nodes.get? k).map f = (t.nodes.get? k).map f) :
      ((t.withNodes nodes).find? v).map f = (t.find? v).map f := by
    rw [map_find? hu, map_find? ht]
    cases hk : v.key? with
    | none => rfl
    | some k => exact hf k hk
  have hseen (ends : List (Json × Json)) (hends : ∀ e ∈ ends, e.2 ∈ consulted t n) :
      (t.withNodes nodes).seen ends = t.seen ends := by
    refine List.map_congr_left fun e he ↦ ?_
    rw [hfind faceOf e.2 (hfaces e.2 (hends e he))]
  have hleavingFile (id : Json) : (t.withNodes nodes).leavingFile id = t.leavingFile id := by
    have hfile : ((t.withNodes nodes).fileOf? id).map (·.member? "id") =
        (t.fileOf? id).map (·.member? "id") := by
      simp only [fileOf?, arriving_withNodes]
      cases (edgesAt t.arriving id).find? (·.1.same "defines") with
      | none => rfl
      | some e => exact hfind _ e.2 fun k _ ↦ hids k
    rw [leavingFile_eq, leavingFile_eq, hfile, leaving_withNodes]
  have hconsulted (e : Json × Json) (he : e ∈ edgesAt t.leaving ((n.member? "id").getD .null) ++
      edgesAt t.arriving ((n.member? "id").getD .null) ++
      t.leavingFile ((n.member? "id").getD .null)) : e.2 ∈ consulted t n :=
    List.mem_map_of_mem he
  simp only [viewOf, hleavingFile, leaving_withNodes, arriving_withNodes]
  rw [hseen (edgesAt t.leaving _) fun e he ↦ hconsulted e (by simp [he]),
    hseen (edgesAt t.arriving _) fun e he ↦ hconsulted e (by simp [he]),
    hseen (t.leavingFile _) fun e he ↦ hconsulted e (by simp [he])]

/-! ## Two runs -/

/-- The file that owns each node of a graph; nothing if the edges cannot be read. -/
def ownersIn (raw : Json) : Table Key Json := (ownersOf raw).toOption.getD []

/-- Whether a node of a graph counts as unchanged since an older one: both have it, and the file
that owns it now has the same hash in both. -/
def Kept (raw : Json) (nodes old : Table Key Json) (k : Key) : Prop :=
  k ∈ nodes.keys ∧ k ∈ old.keys ∧ Diff.FileKept (ownersIn raw) nodes old k

def SameStructures (nodes nodes' : Table Key Json) : Prop :=
  ∀ k, (nodes.get? k).map structureOf = (nodes'.get? k).map structureOf

lemma SameStructures.mem_keys_iff {nodes' : Table Key Json} (h : SameStructures nodes nodes') :
    k ∈ nodes.keys ↔ k ∈ nodes'.keys := by
  have hk := congrArg Option.isSome (h k)
  rw [Option.isSome_map, Option.isSome_map] at hk
  rw [Table.mem_keys_iff, Table.mem_keys_iff, hk]

lemma faceOf_congr {n' : Json} (h : structureOf n = structureOf n') : faceOf n = faceOf n' := by
  rw [faceOf, faceOf, member?_of_structureOf_eq h (by decide),
    member?_of_structureOf_eq h (by decide)]

lemma kept_congr (h : SameStructures old old') (k : Key) :
    Kept raw nodes old k ↔ Kept raw nodes old' k := by
  simp only [Kept, Diff.FileKept, h.mem_keys_iff, Diff.fileHash?_congr (h _)]

lemma sameStructures_of_aligned {done : Table Key Json}
    (h : Aligned (fun _ n m ↦ structureOf m = structureOf n) nodes done) :
    SameStructures done nodes := by
  intro k
  cases hn : nodes.get? k with
  | none => rw [h.absent k hn]
  | some n =>
    obtain ⟨m, hm, hstructure⟩ := h.present k n hn
    rw [hm, Option.map_some, Option.map_some, hstructure]

lemma labelled_takenOver (hold : Labelled old) (h : takenOver old report k = some n) :
    ∃ id, k = .str id ∧ n.member? "id" = some (.str id) := by
  rw [takenOver] at h
  split at h
  · exact hold k n (mem_of_get? h)
  · cases h

/-- What a run gives that takes nodes over: these nodes as they were, and every other node the roles
that it earns among the nodes of the plan. -/
lemma enriched_incremental {before g : Json} (hraw : Listed raw nodes) (hbefore : Listed before old)
    (hreport : report.truthy = true) (h : enriched raw before report frameworks = .ok g) :
    ∃ mixed done, ((surroundings raw nodes).withNodes mixed).WellFormed ∧ Listed g done ∧
      (∀ k, get? mixed k = (nodes.get? k).map fun n ↦ (takenOver old report k).getD n) ∧
      Aligned (TakenOr (takenOver old report) fun n m ↦
        giveRoles ((surroundings raw nodes).withNodes mixed) frameworks n = .ok m) nodes done := by
  have hpartial : isFull before report = false := by
    rw [isFull, hreport, hbefore.truthy]
    rfl
  obtain ⟨p, hp, h⟩ := bind_eq_ok.1 h
  have hplanned := planned_of_incremental hraw.tabled hbefore.nodesById hpartial hp
  have htaken (k : Key) (n : Json) (hk : takenOver old report k = some n) :=
    labelled_takenOver hbefore.labelled hk
  have hkeyed (k : Key) (n : Json) (hk : takenOver old report k = some n) :
      ∃ id, n.member? "id" = some id ∧ id.key? = some k := by
    obtain ⟨id, rfl, hid⟩ := htaken k n hk
    exact ⟨.str id, hid, Json.key?_str id⟩
  obtain ⟨t, _, _, ht, -, -, hdone, haligned⟩ := complete_spec hraw.tabled hplanned hkeyed h
  have hraws := surroundings_of_ok (topologyOf_withNodes ht { fresh := nodes })
  have hsame : (surroundings raw nodes).withNodes (p.preserved ++ p.fresh) = t := by
    rw [hraws, ← topologyOf_nodes ht]
    rfl
  refine ⟨p.preserved ++ p.fresh, _, ?_, hraw.of_aligned hdone haligned, hplanned.get?, ?_⟩
  · rw [hsame]
    exact wellFormed_topologyOf ht (hplanned.labelled hraw.labelled htaken)
  · rw [hsame]
    exact haligned

/-- By the report on two graphs, just the nodes that count as unchanged are taken over. -/
lemma takenOver_report {before r : Json} (hraw : Listed raw nodes) (hbefore : Listed before old)
    (hsame : SameStructures old old') (hr : Diff.report raw before = .ok r)
    (hn : nodes.get? k = some n) :
    (Kept raw nodes old' k → ∃ kept, old.get? k = some kept ∧ takenOver old r k = some kept) ∧
      (¬Kept raw nodes old' k → takenOver old r k = none) := by
  obtain ⟨owners, howners, htold⟩ := Diff.saysUnchanged_report hraw hbefore hr
  obtain ⟨id, rfl, -⟩ := hraw.labelled k n (mem_of_get? hn)
  have hiff : saysUnchanged r (.str id) = true ↔ Kept raw nodes old' (.str id) := by
    have hin : ownersIn raw = owners := by
      rw [ownersIn, howners]
      rfl
    rw [← kept_congr hsame, Kept, hin, htold]
  rw [takenOver]
  constructor
  · intro hkept
    obtain ⟨kept, hget⟩ := exists_of_mem_keys (hsame.mem_keys_iff.2 hkept.2.1)
    exact ⟨kept, hget, by rw [if_pos (hiff.2 hkept), hget]⟩
  · intro hnot
    rw [if_neg fun h ↦ hnot (hiff.1 h)]

/-- Among the nodes of a plan a node has its old view if what its rules consult has. -/
lemma viewOf_mixed {mixed : Table Key Json} {taken : Key → Option Json}
    (ht : topologyOf { fresh := nodes } raw = .ok (surroundings raw nodes))
    (hlabelled : Labelled nodes) (hmixed : ((surroundings raw nodes).withNodes mixed).WellFormed)
    (hget : ∀ k, mixed.get? k = (nodes.get? k).map fun n ↦ (taken k).getD n)
    (htaken : ∀ k kept, taken k = some kept → ∃ id, k = .str id ∧
      kept.member? "id" = some (.str id))
    (hfaces : ∀ v ∈ consulted (surroundings raw nodes) n, ∀ k kept, v.key? = some k →
      taken k = some kept → ∀ n', nodes.get? k = some n' → faceOf kept = faceOf n') :
    viewOf ((surroundings raw nodes).withNodes mixed) n = viewOf (surroundings raw nodes) n := by
  have hnodes : (surroundings raw nodes).nodes = nodes := topologyOf_nodes ht
  refine viewOf_withNodes (wellFormed_surroundings hlabelled ht) hmixed (fun k ↦ ?_)
    fun v hv k hk ↦ ?_
  · rw [hnodes, hget]
    cases hn : nodes.get? k with
    | none => rfl
    | some n' =>
      cases hkept : taken k with
      | none => rfl
      | some kept =>
        obtain ⟨id, rfl, hid⟩ := htaken k kept hkept
        obtain ⟨id', hid', hmember⟩ := hlabelled _ n' (mem_of_get? hn)
        cases hid'
        simp [hid, hmember]
  · rw [hnodes, hget]
    cases hn : nodes.get? k with
    | none => rfl
    | some n' =>
      cases hkept : taken k with
      | none => rfl
      | some kept => simp [hfaces v hv k kept hk hkept n' hn]

/-- Roles are given to a graph, a report compares the next graph with the result, and roles are
given again. A node that counts as unchanged is taken over with the roles that it had; they are the
right ones if rules see the same of it in both graphs. Any other node gets the right roles if all
nodes that its rules consult and that count as unchanged have kept their faces. -/
theorem roles_after_change {raw₀ raw₁ before₀ before₁ g₀ r g₁ full : Json}
    {nodes₀ nodes₁ : Table Key Json} {frameworks : List Reading} (h₀ : Listed raw₀ nodes₀)
    (h₁ : Listed raw₁ nodes₁) (hg₀ : enriched raw₀ before₀ .null frameworks = .ok g₀)
    (hr : Diff.report raw₁ g₀ = .ok r) (hg₁ : enriched raw₁ g₀ r frameworks = .ok g₁)
    (hfull : enriched raw₁ before₁ .null frameworks = .ok full) :
    ∃ done₀ done₁ all, Listed g₀ done₀ ∧ Listed g₁ done₁ ∧ Listed full all ∧
      (∀ k, k ∈ done₁.keys ↔ k ∈ nodes₁.keys) ∧
      ∀ k n₁, nodes₁.get? k = some n₁ → ∃ m f, done₁.get? k = some m ∧ all.get? k = some f ∧
        (Kept raw₁ nodes₁ nodes₀ k → done₀.get? k = some m ∧
          ∀ n₀, nodes₀.get? k = some n₀ →
            viewOf (surroundings raw₀ nodes₀) n₀ = viewOf (surroundings raw₁ nodes₁) n₁ →
            rolesOf m = rolesOf f) ∧
        (¬Kept raw₁ nodes₁ nodes₀ k →
          (∀ v ∈ consulted (surroundings raw₁ nodes₁) n₁, ∀ k', v.key? = some k' →
            Kept raw₁ nodes₁ nodes₀ k' →
            (nodes₀.get? k').map faceOf = (nodes₁.get? k').map faceOf) →
          rolesOf m = rolesOf f) := by
  obtain ⟨ht₀, done₀, hdone₀, haligned₀⟩ := enriched_full h₀ rfl hg₀
  obtain ⟨ht₁, all, hall, haligned⟩ := enriched_full h₁ rfl hfull
  obtain ⟨mixed, done₁, hmixed, hdone₁, hget, haligned₁⟩ :=
    enriched_incremental h₁ hdone₀ (Diff.truthy_report hr) hg₁
  have hwf₀ := wellFormed_surroundings h₀.labelled ht₀
  have hwf₁ := wellFormed_surroundings h₁.labelled ht₁
  have hsame : SameStructures done₀ nodes₀ :=
    sameStructures_of_aligned (haligned₀.imp fun _ _ _ h ↦ structureOf_giveRoles h)
  refine ⟨done₀, done₁, all, hdone₀, hdone₁, hall, haligned₁.mem_keys_iff, fun k n₁ hn₁ ↦ ?_⟩
  obtain ⟨m, hm, htaken, hfresh⟩ := haligned₁.present k n₁ hn₁
  obtain ⟨f, hf, hrolesFull⟩ := haligned.present k n₁ hn₁
  have hid₁ := h₁.labelled.hasTextId hn₁
  obtain ⟨hkeptTaken, hkeptNot⟩ := takenOver_report h₁ hdone₀ hsame hr hn₁
  refine ⟨m, f, hm, hf, fun hkept ↦ ?_, fun hnot hfaces ↦ ?_⟩
  · obtain ⟨kept, hget, htakenOver⟩ := hkeptTaken hkept
    obtain rfl := htaken kept htakenOver
    refine ⟨hget, fun n₀ hn₀ hviews ↦ ?_⟩
    obtain ⟨m₀, hm₀, hroles₀⟩ := haligned₀.present k n₀ hn₀
    obtain rfl := Option.some.inj (hget.symm.trans hm₀)
    have hid₀ := h₀.labelled.hasTextId hn₀
    exact rolesOf_giveRoles_congr hwf₀ hwf₁ ⟨hid₀, hid₁, hviews⟩ hroles₀ hrolesFull
  · -- A node that was taken over looks as it does in the older graph, and hence as it does now.
    have hlooks (v : Json) (hv : v ∈ consulted (surroundings raw₁ nodes₁) n₁)
      (k' : Key) (kept : Json)
        (hk' : v.key? = some k') (hkept : takenOver done₀ r k' = some kept) (n' : Json)
        (hn' : nodes₁.get? k' = some n') : faceOf kept = faceOf n' := by
      obtain ⟨hkeptTaken', hkeptNot'⟩ := takenOver_report h₁ hdone₀ hsame hr hn'
      by_cases hkept' : Kept raw₁ nodes₁ nodes₀ k'
      · obtain ⟨old, hold, htakenOver⟩ := hkeptTaken' hkept'
        obtain rfl := Option.some.inj (hkept.symm.trans htakenOver)
        have hold' := map_congr_of_structureOf faceOf (hsame k') fun _ _ ↦ faceOf_congr
        rw [hfaces v hv k' hk' hkept', hold, hn'] at hold'
        exact Option.some.inj hold'
      · rw [hkeptNot' hkept'] at hkept
        cases hkept
    have hviews := viewOf_mixed ht₁ h₁.labelled hmixed hget
      (fun k kept h ↦ labelled_takenOver hdone₀.labelled h) hlooks
    exact rolesOf_giveRoles_congr hmixed hwf₁ ⟨hid₁, hid₁, hviews⟩ (hfresh (hkeptNot hnot))
      hrolesFull

/-! ## A class whose base appears elsewhere -/

def fileEntry (path hash : String) : Key × Json :=
  (.str path, .obj [("id", .str path), ("node_type", .str "File"), ("name", .str path),
    ("file_hash", .str hash)])

def classEntry (id name : String) : Key × Json :=
  (.str id, .obj [("id", .str id), ("node_type", .str "Class"), ("name", .str name)])

def edgeOf (type source target : String) : Json :=
  .obj [("source", .str source), ("target", .str target), ("type", .str type)]

def graphOf (nodes : Table Key Json) (edges : List Json) : Json :=
  .obj [("nodes", .arr nodes.values), ("edges", .arr edges)]

def shopNodes : Table Key Json := [fileEntry "a.py" "1", classEntry "a.py::Shop" "Shop"]

def baseNodes : Table Key Json :=
  [fileEntry "b.py" "2", classEntry "b.py::Model" "Model", classEntry "b.py::Order" "Order"]

/-- A class that extends what is not defined yet. -/
def shopGraph : Json := graphOf shopNodes [edgeOf "defines" "a.py" "a.py::Shop"]

/-- The same class, and another file that defines what it extends. -/
def fullGraph : Json :=
  graphOf (shopNodes ++ baseNodes)
    [edgeOf "defines" "a.py" "a.py::Shop", edgeOf "defines" "b.py" "b.py::Model",
      edgeOf "defines" "b.py" "b.py::Order", edgeOf "extends" "a.py::Shop" "b.py::Model",
      edgeOf "extends" "b.py::Order" "b.py::Model"]

/-- Classes that extend a model are entities. -/
def entityMapping : List Reading :=
  [.ok (some (.obj [("mappings", .arr [.obj [("semantic_role", .str "entity"),
    ("core_node", .str "Class"),
    ("detection_rules", .obj [("inheritance_includes", .arr [.str "Model"])])]])]))]

lemma listed_shopGraph : Listed shopGraph shopNodes := ⟨rfl, by decide, by decide⟩

lemma listed_fullGraph : Listed fullGraph (shopNodes ++ baseNodes) := ⟨rfl, by decide, by decide⟩

lemma exists_runs_shopGraph :
    ∃ g₀ r g₁ full, enriched shopGraph .null .null entityMapping = .ok g₀ ∧
      Diff.report fullGraph g₀ = .ok r ∧ enriched fullGraph g₀ r entityMapping = .ok g₁ ∧
      enriched fullGraph .null .null entityMapping = .ok full :=
  ⟨_, _, _, _, rfl, rfl, rfl, rfl⟩

theorem roles_after_change_order :
    ∃ g₀ r g₁ full, enriched shopGraph .null .null entityMapping = .ok g₀ ∧
      Diff.report fullGraph g₀ = .ok r ∧ enriched fullGraph g₀ r entityMapping = .ok g₁ ∧
      enriched fullGraph .null .null entityMapping = .ok full ∧
      ∃ done₁ all, Listed g₁ done₁ ∧ Listed full all ∧
        ∃ m f, done₁.get? (.str "b.py::Order") = some m ∧
          all.get? (.str "b.py::Order") = some f ∧ rolesOf m = rolesOf f := by
  obtain ⟨g₀, r, g₁, full, hg₀, hr, hg₁, hfull⟩ := exists_runs_shopGraph
  refine ⟨g₀, r, g₁, full, hg₀, hr, hg₁, hfull, ?_⟩
  obtain ⟨_, done₁, all, _, hdone₁, hall, _, hroles⟩ :=
    roles_after_change listed_shopGraph listed_fullGraph hg₀ hr hg₁ hfull
  obtain ⟨m, f, hm, hf, -, hfresh⟩ := hroles (.str "b.py::Order") _ rfl
  refine ⟨done₁, all, hdone₁, hall, m, f, hm, hf, hfresh (fun hkept ↦ ?_) fun v _ k _ hkept ↦ ?_⟩
  · exact absurd hkept.2.1 (by decide)
  · have hk : k = .str "a.py" ∨ k = .str "a.py::Shop" := by
      simpa [shopNodes, fileEntry, classEntry, keys] using hkept.2.1
    rcases hk with rfl | rfl
    · rfl
    · rfl

/-- The class has kept its file, so that its new role is missed. -/
theorem role_missed_after_change :
    Listed shopGraph shopNodes ∧ Listed fullGraph (shopNodes ++ baseNodes) ∧
      ∃ g₀ r g₁ full m f, enriched shopGraph .null .null entityMapping = .ok g₀ ∧
        Diff.report fullGraph g₀ = .ok r ∧ enriched fullGraph g₀ r entityMapping = .ok g₁ ∧
        enriched fullGraph .null .null entityMapping = .ok full ∧
        node? g₁ (.str "a.py::Shop") = .ok (some m) ∧
        node? full (.str "a.py::Shop") = .ok (some f) ∧
        rolesOf m = .arr [] ∧ rolesOf f = .arr [.str "entity"] :=
  ⟨listed_shopGraph, listed_fullGraph, _, _, _, _, _, _, rfl, rfl, rfl, rfl, rfl, rfl, rfl, rfl⟩

end CodeAtlas.Graph.Enrichment
