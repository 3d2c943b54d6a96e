import CodeAtlas.Proofs.StyleNodes

/-!
# Stylesheets that fail

A stylesheet that fails leaves an entry in the log, in its turn. The entry is about the file that
was read last. That is the stylesheet itself if it could be read at all, and otherwise another one
or none.
-/

namespace CodeAtlas.Build.StyleGraph

open List Fallible Stepwise Sketch

variable {o : Outline}

/-- The file that is read last, as an entry tells it. -/
def lastRead (sources : List Source) : Json :=
  ((sources.filter fun source ↦ source.text.toOption.isSome).getLast?.map fun source ↦
    .str source.name).getD .null

lemma lastRead_concat_of_ok {source : Source} {text : String} (htext : source.text = .ok text)
    (sources : List Source) : lastRead (sources ++ [source]) = .str source.name := by
  simp [lastRead, filter_append, htext, Except.toOption]

lemma lastRead_concat_of_error {source : Source} {f : Fault} (htext : source.text = .error f)
    (sources : List Source) : lastRead (sources ++ [source]) = lastRead sources := by
  simp [lastRead, filter_append, htext, Except.toOption]

lemma logs_addNode (s : Sketch) (type : Json) (name id confidence : String)
    (details : List (String × Json)) :
    (s.addNode type name id confidence details).draft.logs = s.draft.logs := by
  rw [addNode]
  split <;> rfl

lemma logs_foldl_addThing (s : Sketch) (ts : List Thing) :
    (ts.foldl addThing s).draft.logs = s.draft.logs := by
  induction ts generalizing s with
  | nil => rfl
  | cons t ts ih => exact (ih (addThing s t)).trans (logs_addNode ..)

lemma log_add (s : Sketch) (source : Source) {before : List Source}
    (hs : s.fileJson = lastRead before) :
    ((reader o).add s source).fileJson = lastRead (before ++ [source]) ∧
    ((reader o).add s source).draft.logs = s.draft.logs ++
      ((faultIn o s source).map fun f ↦ entryOf f (lastRead (before ++ [source]))).toList := by
  cases htext : source.text with
  | error f =>
    rw [faultIn_of_error htext, Reader.add, visit_eq_error htext,
      lastRead_concat_of_error htext, ← hs]
    exact ⟨rfl, rfl⟩
  | ok text =>
    obtain ⟨done, s', -, hnames, -, hadd⟩ := exists_names_add (o := o) htext s
    have hfile : s'.fileJson = .str source.name := by
      rw [fileJson, hnames.file, (mem_foldl_addThing (file_openedAt s source text) done).1]
      rfl
    have hlogs : s'.draft.logs = s.draft.logs :=
      (hnames.logs.trans (logs_foldl_addThing _ done)).trans (logs_addNode ..)
    rw [hadd, lastRead_concat_of_ok htext, ← hfile, ← hlogs]
    exact ⟨rfl, rfl⟩

/-- What goes wrong with one of some files, in its turn. -/
def faultAt (o : Outline) (issued : Nat) (sources : List Source) (i : Nat) : Option Fault :=
  sources[i]?.bind (faultIn o (ofSources o issued (sources.take i)))

lemma log_ofSources (issued : Nat) (sources : List Source) :
    (ofSources o issued sources).fileJson = lastRead sources ∧
    (ofSources o issued sources).draft.logs = (range sources.length).filterMap fun i ↦
      (faultAt o issued sources i).map fun f ↦ entryOf f (lastRead (sources.take (i + 1))) := by
  induction sources using List.reverseRecOn with
  | nil => exact ⟨rfl, rfl⟩
  | append_singleton sources source ih =>
    obtain ⟨hfile, hlogs⟩ := log_add (o := o) (ofSources o issued sources) source ih.1
    have hadd : ofSources o issued (sources ++ [source]) =
        (reader o).add (ofSources o issued sources) source := by
      rw [ofSources, foldl_append]
      rfl
    have hbefore : (range sources.length).filterMap (fun i ↦
        (faultAt o issued (sources ++ [source]) i).map fun f ↦
          entryOf f (lastRead ((sources ++ [source]).take (i + 1)))) =
        (ofSources o issued sources).draft.logs := by
      rw [ih.2]
      refine filterMap_congr fun i hi ↦ ?_
      have hlt : i < sources.length := mem_range.1 hi
      rw [faultAt, faultAt, getElem?_append_left hlt, take_append_of_le_length hlt.le,
        take_append_of_le_length hlt]
    have hlast : faultAt o issued (sources ++ [source]) sources.length =
        faultIn o (ofSources o issued sources) source := by
      rw [faultAt, getElem?_concat_length, take_left]
      rfl
    have hwhole : (sources ++ [source]).take (sources.length + 1) = sources ++ [source] :=
      take_of_length_le (by simp)
    refine ⟨hadd ▸ hfile, ?_⟩
    rw [hadd, hlogs, length_append, length_singleton, range_succ, filterMap_append, hbefore]
    simp only [filterMap_cons, filterMap_nil, hlast, hwhole]
    cases faultIn o (ofSources o issued sources) source <;> rfl

/-- A file that fails leaves one entry, in its turn, and the entry is about the file that has been
read last by then. That is the file itself if it can be read, and the one that was read before it
otherwise. Under the documents that come with the builder only files that cannot be read fail, so
each entry is about a file that was read before, or about none. -/
theorem failures_logged_under_last_read (o : Outline) (issued : Nat) (sources : List Source) :
    (ofSources o issued sources).draft.logs = ((range sources.length).filterMap fun i ↦
      (faultAt o issued sources i).map fun f ↦ entryOf f (lastRead (sources.take (i + 1)))) ∧
    ∀ i source, sources[i]? = some source →
      (∀ f, source.text = .error f → faultAt o issued sources i = some f ∧
        lastRead (sources.take (i + 1)) = lastRead (sources.take i)) ∧
      ∀ text, source.text = .ok text → lastRead (sources.take (i + 1)) = .str source.name ∧
        (outlineOf Catalog.cssInstructions Catalog.cssMapping coreRules = .ok o →
          faultAt o issued sources i = none) := by
  refine ⟨(log_ofSources issued sources).2, fun i source hsource ↦ ?_⟩
  have htake : sources.take (i + 1) = sources.take i ++ [source] := by
    rw [take_add_one, hsource]
    rfl
  have hfault : faultAt o issued sources i =
      faultIn o (ofSources o issued (sources.take i)) source := by
    rw [faultAt, hsource]
    rfl
  rw [htake, hfault]
  refine ⟨fun f htext ↦ ⟨faultIn_of_error htext _, lastRead_concat_of_error htext _⟩,
    fun text htext ↦ ⟨lastRead_concat_of_ok htext _, fun ho ↦ ?_⟩⟩
  obtain ⟨_, _, -, -, hall, -⟩ :=
    exists_names_add (o := o) htext (ofSources o issued (sources.take i))
  exact (hall (orderly_of_outlineOf ho).1).2

/-- A stylesheet that can be read, and one that cannot. -/
def lostSources : List Source :=
  [⟨"a.css", "/p/a.css", .ok ".a \x7b color: red \x7d\n"⟩,
    ⟨"b.css", "/p/b.css", .error (.isDirectory "/p/b.css")⟩]

/-- The second one fails, and the log has an entry about the first one. -/
theorem failure_logged_under_other :
    ((outlineOf Catalog.cssInstructions Catalog.cssMapping coreRules).toOption.map fun styles ↦
      ((range 2).map fun i ↦ (faultAt styles 0 lostSources i).isSome,
        (ofSources styles 0 lostSources).draft.logs.map fun entry ↦
        (entry.member? "file").bind Json.asStr?)) =
      some ([false, true], [some "a.css"]) := by
  decide +kernel

end CodeAtlas.Build.StyleGraph
