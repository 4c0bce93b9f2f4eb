import Tabular.Proofs.Paths
import Tabular.Proofs.TextOrder

/-!
# Catalogs of a directory

The catalog files of a directory are its regular files with a known extension, in the byte order of their names
(`Catalog.Lists`). Their catalogs are put together in this order, or the first of them that cannot be loaded or has
another version than the first one is the fault (`Catalog.Merges`). Nothing else in the directory counts, and neither
does the order in which its entries are listed (`Catalog.directory_catalogs`).
-/

namespace Tabular

open Text

namespace Catalog

/-- The catalog files in a directory, in the byte order of their names. -/
structure Lists (files : Files) (p : Place) (names : List String) : Prop where
  sorted : names.Pairwise fun a b => a.toUTF8.toList < b.toUTF8.toList
  regular : ∀ name, name ∈ names ↔
    (∃ stem ext, stem ≠ "" ∧ ext ∈ ["yaml", "yml", "json"] ∧ name = stem ++ "." ++ ext) ∧
      ∃ content, files.at? (p ++ [name]) = some (.file content)

/-- What files come to that are loaded one after the other: a fault if there are none; the version of all of them with
their entities in sequence; the fault of the first that cannot be loaded or has another version, after some that have
the same one. -/
inductive Merges (directory : String) (load : String → Except CatalogFault Catalog) :
    List String → Except CatalogFault Catalog → Prop
  | none : Merges directory load [] (.error (.noFiles directory))
  | all {names : List String} {cs : List Catalog} {version : String} (some : names ≠ [])
      (loaded : List.Forall₂ (fun name c => load name = .ok c) names cs) (same : ∀ c ∈ cs, c.version = version) :
      Merges directory load names (.ok ⟨version, cs.flatMap (·.entities)⟩)
  | refused {before after : List String} {name : String} {cs : List Catalog} {version : String} {fault : CatalogFault}
      (loaded : List.Forall₂ (fun name c => load name = .ok c) before cs) (same : ∀ c ∈ cs, c.version = version)
      (refused : load name = .error fault) : Merges directory load (before ++ name :: after) (.error fault)
  | other {before after : List String} {name : String} {cs : List Catalog} {version : String} {c : Catalog}
      (some : before ≠ []) (loaded : List.Forall₂ (fun name c => load name = .ok c) before cs)
      (same : ∀ c ∈ cs, c.version = version) (found : load name = .ok c) (other : version ≠ c.version) :
      Merges directory load (before ++ name :: after) (.error (.otherVersion version c.version))

section
variable {files : Files} {p : Place} {names others : List String} {name : String}

theorem Lists.unique (lists : Lists files p names) (lists' : Lists files p others) : names = others := by
  have distinct {names : List String} (sorted : names.Pairwise fun a b => a.toUTF8.toList < b.toUTF8.toList) :
      names.Nodup := by
    refine sorted.imp ?_
    rintro a _ less rfl
    exact List.lt_irrefl _ less
  have perm : names.Perm others := by
    rw [List.perm_ext_iff_of_nodup (distinct lists.sorted) (distinct lists'.sorted)]
    intro name
    rw [lists.regular, lists'.regular]
  exact perm.eq_of_pairwise (fun a b _ _ less less' => absurd less' (List.lt_asymm less)) lists.sorted lists'.sorted

private theorem last_of_child {q : Place} :
    (if q ≠ [] ∧ q.dropLast = p then q.getLast? else none) = some name ↔ q = p ++ [name] := by
  constructor
  · intro last
    by_cases child : q ≠ [] ∧ q.dropLast = p
    · rw [if_pos child] at last
      rw [← child.2, List.dropLast_append_getLast? name last]
    · rw [if_neg child] at last
      cases last
  · rintro rfl
    simp

theorem mem_names (wellFormed : files.WellFormed) :
    name ∈ files.names p ↔ ∃ e, files.at? (p ++ [name]) = some e := by
  rw [Files.names, List.mem_filterMap]
  constructor
  · rintro ⟨⟨q, e⟩, listed, last⟩
    obtain rfl := last_of_child.mp last
    exact ⟨e, (wellFormed.at?_eq_some (by simp)).mpr listed⟩
  · rintro ⟨e, there⟩
    exact ⟨(p ++ [name], e), (wellFormed.at?_eq_some (by simp)).mp there, last_of_child.mpr rfl⟩

theorem nodup_names (wellFormed : files.WellFormed) (p : Place) : (files.names p).Nodup := by
  have places : files.names p =
      (files.entries.map (·.1)).filterMap fun q => if q ≠ [] ∧ q.dropLast = p then q.getLast? else none := by
    rw [Files.names, List.filterMap_map]
    rfl
  rw [places]
  refine List.Nodup.filterMap ?_ wellFormed.distinct
  intro q r name last last'
  rw [last_of_child.mp last, last_of_child.mp last']

theorem pairwise_names (wellFormed : files.WellFormed) (p : Place) :
    ((files.names p).mergeSort fun a b => !decide (b < a)).Pairwise fun a b => a.toUTF8.toList < b.toUTF8.toList := by
  have transitive : ∀ a b c : String, (!decide (b < a)) = true → (!decide (c < b)) = true →
      (!decide (c < a)) = true := by
    intro a b c first last
    simp only [Bool.not_eq_true', decide_eq_false_iff_not, not_lt] at first last ⊢
    exact le_trans first last
  have total : ∀ a b : String, (!decide (b < a) || !decide (a < b)) = true := by
    intro a b
    simp only [Bool.or_eq_true, Bool.not_eq_true', decide_eq_false_iff_not, not_lt]
    exact le_total a b
  have sorted := List.pairwise_mergeSort transitive total (files.names p)
  have distinct : ((files.names p).mergeSort fun a b => !decide (b < a)).Nodup :=
    (List.mergeSort_perm _ _).nodup_iff.mpr (nodup_names wellFormed p)
  refine (sorted.and distinct).imp ?_
  rintro a b ⟨before, apart⟩
  simp only [Bool.not_eq_true', decide_eq_false_iff_not, not_lt] at before
  exact String.toList_toUTF8_lt_iff.mpr (lt_of_le_of_ne before apart)

private theorem extended_iff : (∃ f, Format.ofName? name = some f) ↔
    ∃ stem ext, stem ≠ "" ∧ ext ∈ ["yaml", "yml", "json"] ∧ name = stem ++ "." ++ ext := by
  simp only [Format.ofName?_eq_some]
  constructor
  · rintro ⟨f, stem, ext, named, listed, same⟩
    have known : f.extensions ⊆ ["yaml", "yml", "json"] := by
      cases f <;> decide
    exact ⟨stem, ext, named, known listed, same⟩
  · rintro ⟨stem, ext, named, listed, same⟩
    by_cases json : ext = "json"
    · exact ⟨.json, stem, ext, named, by simp [Format.extensions, json], same⟩
    · exact ⟨.yaml, stem, ext, named, by simpa [Format.extensions, json] using listed, same⟩

/-- The file of a name, if it is one that counts. -/
private def fileOf? (files : Files) (p : Place) (name : String) : Option (Format × Content) :=
  (match files.at? (p ++ [name]) with
    | some (.file content) => some (name, content)
    | _ => none).bind fun (name, content) => (Format.ofName? name).map fun f => (f, content)

private theorem fileOf?_eq_some {f : Format} {content : Content} : fileOf? files p name = some (f, content) ↔
    Format.ofName? name = some f ∧ files.at? (p ++ [name]) = some (.file content) := by
  rw [fileOf?]
  cases files.at? (p ++ [name]) with
  | none => simp
  | some e =>
    cases e with
    | directory => simp
    | file content' =>
      show (Format.ofName? name).map (fun f => (f, content')) = _ ↔ _
      simp only [Option.map_eq_some_iff, Prod.mk.injEq, Option.some.injEq, Entry.file.injEq]
      constructor
      · rintro ⟨g, format, rfl, rfl⟩
        exact ⟨format, rfl⟩
      · rintro ⟨format, rfl⟩
        exact ⟨f, format, rfl, rfl⟩

theorem exists_lists (wellFormed : files.WellFormed) (p : Place) : ∃ names, Lists files p names ∧
    List.Forall₂ (fun name file => Format.ofName? name = some file.1 ∧ files.at? (p ++ [name]) = some (.file file.2))
      names (filesOf files p) := by
  let all := (files.names p).mergeSort fun a b => !decide (b < a)
  have taken : filesOf files p = all.filterMap (fileOf? files p) := by
    rw [filesOf, Files.filesIn, List.filterMap_filterMap]
    rfl
  refine ⟨all.filter fun name => (fileOf? files p name).isSome, ⟨(pairwise_names wellFormed p).filter _, ?_⟩, ?_⟩
  · intro name
    rw [List.mem_filter, List.mem_mergeSort, mem_names wellFormed, ← extended_iff, Option.isSome_iff_exists]
    constructor
    · rintro ⟨_, ⟨f, content⟩, file⟩
      obtain ⟨format, there⟩ := fileOf?_eq_some.mp file
      exact ⟨⟨f, format⟩, content, there⟩
    · rintro ⟨⟨f, format⟩, content, there⟩
      exact ⟨⟨_, there⟩, (f, content), fileOf?_eq_some.mpr ⟨format, there⟩⟩
  · rw [taken]
    clear taken
    induction all with
    | nil => exact .nil
    | cons name rest ih =>
      cases file : fileOf? files p name with
      | none =>
        rw [List.filter_cons_of_neg (by simp [file]), List.filterMap_cons_none file]
        exact ih
      | some found =>
        rw [List.filter_cons_of_pos (by simp [file]), List.filterMap_cons_some file]
        exact .cons (fileOf?_eq_some.mp file) ih

end

section
variable {directory : String} {load : String → Except CatalogFault Catalog} {names : List String} {c : Catalog}
  {cs : List Catalog} {x : Except CatalogFault Catalog}

/-- The catalogs of files that are loaded one after the other. -/
def loadEach (directory : String) (load : String → Except CatalogFault Catalog) :
    List String → Except CatalogFault Catalog
  | [] => .error (.noFiles directory)
  | name :: rest => do rest.foldlM (fun c name => load name >>= c.merge) (← load name)

theorem foldlM_merge (loaded : List.Forall₂ (fun name c => load name = .ok c) names cs)
    (same : ∀ d ∈ cs, d.version = c.version) : names.foldlM (fun c name => load name >>= c.merge) c =
      .ok { c with entities := c.entities ++ cs.flatMap (·.entities) } := by
  induction loaded generalizing c with
  | nil => simp [pure, Except.pure]
  | @cons name d names cs first rest ih =>
    obtain ⟨here, others⟩ := List.forall_mem_cons.mp same
    have merged : c.merge d = .ok { c with entities := c.entities ++ d.entities } := by
      rw [merge, if_pos here.symm]
    rw [List.foldlM_cons, first]
    show (c.merge d >>= _) = _
    rw [merged]
    show List.foldlM _ _ _ = _
    rw [ih (c := ⟨c.version, c.entities ++ d.entities⟩) others, List.flatMap_cons, List.append_assoc]

/-- Files of one version come to a catalog of all their entities. -/
theorem loadEach_append {version : String} {after : List String} (some : names ≠ [])
    (loaded : List.Forall₂ (fun name c => load name = .ok c) names cs) (same : ∀ c ∈ cs, c.version = version) :
    loadEach directory load (names ++ after) =
      after.foldlM (fun c name => load name >>= c.merge) ⟨version, cs.flatMap (·.entities)⟩ := by
  cases loaded with
  | nil => exact absurd rfl some
  | @cons name d names cs first rest =>
    obtain ⟨rfl, others⟩ := List.forall_mem_cons.mp same
    rw [List.cons_append, loadEach, first]
    show List.foldlM _ _ _ = _
    rw [List.foldlM_append, foldlM_merge rest others]
    rfl

theorem Merges.loadEach_eq (merges : Merges directory load names x) : loadEach directory load names = x := by
  cases merges with
  | none => rfl
  | @all _ cs version some loaded same =>
    rw [← List.append_nil names]
    exact loadEach_append some loaded same
  | @refused before after name cs version fault loaded same refused =>
    by_cases first : before = []
    · subst first
      rw [List.nil_append, loadEach, refused]
      rfl
    · rw [loadEach_append first loaded same, List.foldlM_cons, refused]
      rfl
  | @other before after name cs version c some loaded same found other =>
    rw [loadEach_append some loaded same, List.foldlM_cons, found]
    show (merge _ c >>= _) = _
    rw [merge, if_neg other]
    rfl

theorem exists_merges {version : String} {before : List String} (some : before ≠ [])
    (loaded : List.Forall₂ (fun name c => load name = .ok c) before cs) (same : ∀ c ∈ cs, c.version = version)
    (after : List String) : ∃ x, Merges directory load (before ++ after) x := by
  induction after generalizing before cs with
  | nil =>
    rw [List.append_nil]
    exact ⟨_, .all some loaded same⟩
  | cons name rest ih =>
    cases found : load name with
    | error fault => exact ⟨_, .refused loaded same found⟩
    | ok c =>
      by_cases here : version = c.version
      · have more : List.Forall₂ (fun name c => load name = .ok c) (before ++ [name]) (cs ++ [c]) :=
          List.rel_append loaded (.cons found .nil)
        have versions : ∀ d ∈ cs ++ [c], d.version = version := by
          intro d member
          rcases List.mem_append.mp member with earlier | last
          · exact same d earlier
          · rw [List.mem_singleton.mp last, here]
        have rest' := ih (by simp) more versions
        rwa [List.append_assoc, List.singleton_append] at rest'
      · exact ⟨_, .other some loaded same found here⟩

/-- What files come to is told by what each of them is loaded as. -/
theorem loadEach_eq_iff : loadEach directory load names = x ↔ Merges directory load names x := by
  refine ⟨?_, Merges.loadEach_eq⟩
  rintro rfl
  have some : ∃ x, Merges directory load names x := by
    cases names with
    | nil => exact ⟨_, .none⟩
    | cons name rest =>
      cases found : load name with
      | error fault =>
        have same : ∀ c ∈ ([] : List Catalog), c.version = "" := by simp
        exact ⟨_, .refused .nil same found⟩
      | ok c =>
        have first : List.Forall₂ (fun name c => load name = .ok c) [name] [c] := .cons found .nil
        have same : ∀ d ∈ [c], d.version = c.version := by simp
        exact exists_merges (by simp) first same rest
  obtain ⟨x, merges⟩ := some
  rwa [merges.loadEach_eq]

end

variable {files : Files} {directory : String} {p : Place} {names : List String}

theorem foldlM_read {load : String → Except CatalogFault Catalog} {taken : List (Format × Content)}
    (loaded : List.Forall₂ (fun name file => load name = read file.1 file.2) names taken) (c : Catalog) :
    taken.foldlM (fun c file => read file.1 file.2 >>= c.merge) c =
      names.foldlM (fun c name => load name >>= c.merge) c := by
  induction loaded generalizing c with
  | nil => rfl
  | cons first rest ih =>
    rw [List.foldlM_cons, List.foldlM_cons, first]
    exact congrArg _ (funext fun d => ih d)

/-- The catalog of a directory is made of the files that count, each loaded under its path. -/
theorem loadAll_eq_loadEach (wellFormed : files.WellFormed) (found : files.place? directory = some p)
    (inside : files.isDirectory p = true) : ∃ names, Lists files p names ∧
      (∀ name ∈ names, ∃ f content, Format.ofName? name = some f ∧ files.at? (p ++ [name]) = some (.file content) ∧
        load files (directory ++ "/" ++ name) = read f content) ∧
      loadAll files directory = loadEach directory (fun name => load files (directory ++ "/" ++ name)) names := by
  obtain ⟨names, lists, chosen⟩ := exists_lists wellFormed p
  have loads : ∀ name f content, Format.ofName? name = some f → files.at? (p ++ [name]) = some (.file content) →
      load files (directory ++ "/" ++ name) = read f content := by
    intro name f content format there
    have listed := (wellFormed.at?_eq_some (by simp)).mp there
    exact load_child found inside (wellFormed.names _ _ listed name (by simp)) format there
  refine ⟨names, lists, ?_, ?_⟩
  · intro name member
    obtain ⟨⟨f, content⟩, _, format, there⟩ := Checks.exists_of_mem_left chosen member
    exact ⟨f, content, format, there, loads name f content format there⟩
  · have loaded : List.Forall₂ (fun name file => load files (directory ++ "/" ++ name) = read file.1 file.2) names
        (filesOf files p) :=
      chosen.imp fun name file known => loads name file.1 file.2 known.1 known.2
    rw [loadAll, found]
    show (if !files.isDirectory p then _ else _) = _
    rw [inside]
    generalize filesOf files p = taken at loaded
    cases loaded with
    | nil => rfl
    | @cons name file names taken first rest =>
      rw [loadEach, first]
      show read file.1 file.2 >>= _ = read file.1 file.2 >>= _
      exact congrArg _ (funext fun c => foldlM_read rest c)

/-- The catalog of a directory depends on the regular files in it that have a known extension, and on nothing else in
it. These are loaded in the byte order of their names: there must be one, and all must be catalogs of the version of
the first; the first that is not is the fault. The order in which the directory lists its entries makes no
difference. -/
theorem directory_catalogs (wellFormed : files.WellFormed) (found : files.place? directory = some p)
    (inside : files.isDirectory p = true) :
    (∀ files' : Files, files'.home = files.home → files'.entries.Perm files.entries →
      loadAll files' directory = loadAll files directory) ∧
    ∃ names, Lists files p names ∧
      (∀ name ∈ names, ∃ f content, Format.ofName? name = some f ∧ files.at? (p ++ [name]) = some (.file content) ∧
        load files (directory ++ "/" ++ name) = read f content) ∧
      ∀ x, loadAll files directory = x ↔
        Merges directory (fun name => load files (directory ++ "/" ++ name)) names x := by
  obtain ⟨names, lists, loads, answer⟩ := loadAll_eq_loadEach wellFormed found inside
  refine ⟨fun files' home same => ?_, names, lists, loads, fun x => by rw [answer, loadEach_eq_iff]⟩
  -- The other tree has the same things at the same places, and so the same list of files that count.
  have places := wellFormed.at?_perm home same
  have found' : files'.place? directory = some p := by
    rw [Files.place?_congr home places, found]
  have inside' : files'.isDirectory p = true := by
    rw [Files.isDirectory, places]
    exact inside
  obtain ⟨others, lists', _, answer'⟩ := loadAll_eq_loadEach (wellFormed.perm home same) found' inside'
  have regular : Lists files p others := ⟨lists'.sorted, by
    rw [← places]
    exact lists'.regular⟩
  have loaded : load files' = load files := by
    funext path
    rw [load, load, Files.open?_congr home places]
  rw [answer', answer, lists.unique regular, loaded]

/-- Two catalogs beside a directory and two files without a known extension. Capitals come before small letters, in
whatever order the names are listed. -/
theorem directory_catalogs_capital :
    let tags : Catalog := ⟨"1", [{ name := "Tag" }]⟩
    let notes : Catalog := ⟨"1", [{ name := "Note" }]⟩
    let file (c : Catalog) : Entry := .file (Content.ofString (c.write .json))
    let files : Files := ⟨[(["d"], .directory), (["d", "a.json"], file notes), (["d", "x.yml"], .directory),
      (["d", ".json"], file notes), (["d", "Z.json"], file tags), (["d", "\u00e9.txt"], file notes)], []⟩
    files.WellFormed ∧ files.place? "d" = some ["d"] ∧ files.isDirectory ["d"] = true ∧
      loadAll files "d" = .ok ⟨"1", [{ name := "Tag" }, { name := "Note" }]⟩ ∧
      loadAll ⟨files.entries.reverse, []⟩ "d" = .ok ⟨"1", [{ name := "Tag" }, { name := "Note" }]⟩ := by
  intro tags notes file files
  have wellFormed : files.WellFormed := by
    have named : ∀ entry ∈ files.entries, ∀ name ∈ entry.1, IsName name := by decide
    exact ⟨by decide, fun p e member => named (p, e) member, by decide⟩
  have found : files.place? "d" = some ["d"] := by
    have pieces : "d".splitOn "/" = ["d"] := String.splitOn_of_notMem (c := '/') (by decide)
    have start : files.start "d" = [] := by
      rw [Files.start]
      split <;> rfl
    have step : files.step? [] "d" = some ["d"] := Files.step?_name rfl (by decide)
    rw [Files.place?, if_neg (by decide), pieces, start]
    simpa using step
  have inside : files.isDirectory ["d"] = true := by decide
  obtain ⟨anyOrder, names, lists, loads, answer⟩ := directory_catalogs wellFormed found inside
  have hidden : Format.extension? ("" ++ "." ++ "json") = none := Format.extension?_append "" (by decide)
  have other : Format.extension? ("\u00e9" ++ "." ++ "txt") = some "txt" :=
    Format.extension?_append "\u00e9" (by decide)
  have taken : Lists files ["d"] ["Z.json", "a.json"] := by
    refine ⟨.cons ?_ (List.pairwise_singleton _ _), fun name => ⟨?_, ?_⟩⟩
    · intro name member
      rw [List.mem_singleton.mp member, String.toList_toUTF8_lt_iff]
      decide
    · intro member
      rcases List.mem_pair.mp member with rfl | rfl
      · exact ⟨⟨"Z", "json", by decide, by decide, rfl⟩, _, rfl⟩
      · exact ⟨⟨"a", "json", by decide, by decide, rfl⟩, _, rfl⟩
    · rintro ⟨extended, content, there⟩
      obtain ⟨f, format⟩ := extended_iff.mpr extended
      have listed := (wellFormed.at?_eq_some (by simp)).mp there
      have known : name = "a.json" ∨ name = ".json" ∨ name = "Z.json" ∨ name = "\u00e9.txt" := by
        simp [files, file] at listed
        tauto
      rcases known with rfl | rfl | rfl | rfl
      · decide
      · rw [Format.ofName?, show ".json" = "" ++ "." ++ "json" from rfl, hidden] at format
        cases format
      · decide
      · rw [Format.ofName?, show "\u00e9.txt" = "\u00e9" ++ "." ++ "txt" from rfl, other] at format
        cases format
  obtain rfl := lists.unique taken
  have loaded {name : String} {c : Catalog} (listed : name ∈ ["Z.json", "a.json"])
      (there : files.at? ["d", name] = some (file c)) : load files ("d" ++ "/" ++ name) = c.requireVersion := by
    have format : Format.ofName? name = some .json := by
      rcases List.mem_pair.mp listed with rfl | rfl
      · exact Format.ofName?_eq_some.mpr ⟨"Z", "json", by decide, by decide, rfl⟩
      · exact Format.ofName?_eq_some.mpr ⟨"a", "json", by decide, by decide, rfl⟩
    obtain ⟨f, content, format', stands, read⟩ := loads name listed
    have content' : Entry.file content = file c := Option.some.inj (stands.symm.trans there)
    rw [read, Entry.file.inj content', ← read_write_json, Option.some.inj (format'.symm.trans format)]
  have outcome : loadAll files "d" = .ok ⟨"1", [{ name := "Tag" }, { name := "Note" }]⟩ := by
    have first : load files ("d" ++ "/" ++ "Z.json") = .ok tags := (loaded List.mem_cons_self rfl).trans (by decide)
    have second : load files ("d" ++ "/" ++ "a.json") = .ok notes :=
      (loaded (List.mem_cons_of_mem _ List.mem_cons_self) rfl).trans (by decide)
    have same : ∀ c ∈ [tags, notes], c.version = "1" := by decide
    have both : List.Forall₂ (fun name c => load files ("d" ++ "/" ++ name) = .ok c) ["Z.json", "a.json"]
      [tags, notes] := .cons first (.cons second .nil)
    exact (answer _).mpr (.all (by decide) both same)
  have reversed := anyOrder ⟨files.entries.reverse, []⟩ rfl (List.reverse_perm files.entries)
  exact ⟨wellFormed, found, inside, outcome, reversed.trans outcome⟩

end Catalog

end Tabular
