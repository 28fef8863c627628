import DataHarbour.Text.PathPatterns
import DataHarbour.Text.Segments

/-!
# The routes of the lineage API

The routes are modelled with the router's prefix, in the order in which the module registers
them. Of the requests only the method and the path matter here.
-/

namespace DataHarbour.Lineage

open Text

/-- The methods of the lineage routes. -/
inductive Method
  | get
  | post
  deriving DecidableEq

/-- The functions of the router. -/
inductive Endpoint
  | ingest
  | runsForJob
  | getDataset
  | upstream
  | downstream
  deriving DecidableEq

/-- Literal text of a pattern. -/
def fixedText (text : String) : Piece Char := .literal text.toList

/-- What the paths of the dataset routes start with. -/
def datasetsPrefix : String := "/api/v1/lineage/datasets/"

/-- `/datasets/{namespace}/{name:path}` -/
def datasetPattern : List (Piece Char) :=
  [fixedText datasetsPrefix, .segment, fixedText "/", .path]

/-- `@router.post("/", ...)` -/
def ingestRoute : Route Char Endpoint := ⟨[fixedText "/api/v1/lineage/"], .ingest⟩

/-- `/jobs/{job_id}/runs` -/
def runsForJobRoute : Route Char Endpoint :=
  ⟨[fixedText "/api/v1/lineage/jobs/", .segment, fixedText "/runs"], .runsForJob⟩

/-- The dataset itself. -/
def getDatasetRoute : Route Char Endpoint := ⟨datasetPattern, .getDataset⟩

/-- The datasets that it is made from. -/
def upstreamRoute : Route Char Endpoint :=
  ⟨datasetPattern ++ [fixedText "/upstream"], .upstream⟩

/-- The datasets that are made from it. -/
def downstreamRoute : Route Char Endpoint :=
  ⟨datasetPattern ++ [fixedText "/downstream"], .downstream⟩

/-- The routes in the order of their decorators. -/
def routes : List (Method × Route Char Endpoint) :=
  [(.post, ingestRoute), (.get, runsForJobRoute), (.get, getDatasetRoute), (.get, upstreamRoute),
   (.get, downstreamRoute)]

/-- The function that a request reaches, with its path parameters. -/
def dispatch (method : Method) (path : String) : Option (Endpoint × List String) :=
  (Text.dispatch '/' ((routes.filter (·.1 = method)).map (·.2)) path.toList).map fun found =>
    (found.1, found.2.map String.ofList)

/-- `/datasets/{namespace}/{name}` with the parameters filled in. -/
def datasetPath (ns name : String) : String :=
  datasetsPrefix ++ ns ++ "/" ++ name

/-- The routes that a `GET` request can reach. -/
theorem get_routes : (routes.filter (·.1 = .get)).map (·.2) =
    [runsForJobRoute, getDatasetRoute, upstreamRoute, downstreamRoute] := rfl

private theorem fits_datasetPattern_iff {more : List (Piece Char)} {ws : List (List Char)}
    {text : List Char} : Fits '/' (datasetPattern ++ more) ws text ↔
      ∃ ns name ws' rest, ws = ns :: name :: ws' ∧
        text = datasetsPrefix.toList ++ (ns ++ '/' :: (name ++ rest)) ∧ ns ≠ [] ∧
        '/' ∉ ns ∧ Fits '/' more ws' rest := by
  rw [datasetPattern, fixedText, fixedText, List.cons_append, Fits.literal_iff]
  simp only [List.cons_append, List.nil_append, Fits.segment_iff, Fits.literal_iff, Fits.path_iff]
  constructor
  · rintro ⟨_, rfl, ns, _, _, rfl, rfl, hne, hsep, _, rfl, name, ws', rest, rfl, rfl, hrest⟩
    exact ⟨ns, name, ws', rest, rfl, rfl, hne, hsep, hrest⟩
  · rintro ⟨ns, name, ws', rest, rfl, rfl, hne, hsep, hrest⟩
    exact ⟨_, rfl, ns, _, _, rfl, rfl, hne, hsep, _, rfl, name, ws', rest, rfl, rfl, hrest⟩

/-- Whatever a longer dataset pattern matches, the pattern of `get_dataset` matches as well. -/
theorem fits_datasetPattern_of_append {more : List (Piece Char)} {ws : List (List Char)}
    {text : List Char} (h : Fits '/' (datasetPattern ++ more) ws text) :
    ∃ ws', Fits '/' datasetPattern ws' text := by
  obtain ⟨ns, name, _, rest, -, rfl, hne, hsep, -⟩ := fits_datasetPattern_iff.mp h
  refine ⟨[ns, name ++ rest], ?_⟩
  rw [← List.append_nil datasetPattern]
  exact fits_datasetPattern_iff.mpr
    ⟨ns, name ++ rest, [], [], rfl, by rw [List.append_nil], hne, hsep, .nil⟩

/-- A text that starts as the dataset paths do is not a path of a job's runs. -/
theorem not_fits_runsForJob {ws : List (List Char)} {rest : List Char} :
    ¬ Fits '/' runsForJobRoute.pattern ws (datasetsPrefix.toList ++ rest) := by
  intro h
  obtain ⟨rest', heq, -⟩ := Fits.literal_iff.mp h
  -- the paths part at `jobs` and `datasets`
  have htake := congrArg (List.take 17) heq
  rw [List.take_append_of_le_length (by decide), List.take_append_of_le_length (by decide)] at htake
  revert htake
  decide

/-- What a path gives `get_dataset`: all up to the first slash is the namespace. -/
theorem dispatch_of_fits {ns name : List Char} {path : String}
    (hpath : path.toList = datasetsPrefix.toList ++ (ns ++ '/' :: name))
    (hne : ns ≠ []) (hsep : '/' ∉ ns) :
    dispatch .get path = some (.getDataset, [String.ofList ns, String.ofList name]) := by
  have hfits : Fits '/' (datasetPattern ++ []) [ns, name] path.toList :=
    fits_datasetPattern_iff.mpr
      ⟨ns, name, [], [], rfl, by rw [hpath, List.append_nil], hne, hsep, .nil⟩
  have hunique : ∀ ws, Fits '/' (datasetPattern ++ []) ws path.toList → ws = [ns, name] := by
    intro ws hws
    obtain ⟨ns', name', ws', rest, rfl, heq, -, hsep', hrest⟩ := fits_datasetPattern_iff.mp hws
    obtain ⟨rfl, rfl⟩ := Fits.nil_iff.mp hrest
    have htail := List.append_cancel_left (hpath.symm.trans heq)
    rw [List.append_nil] at htail
    have hprefix : ns ++ '/' :: name <+: ns' ++ '/' :: name' := htail ▸ List.prefix_rfl
    obtain rfl := ((prefix_closed_iff hsep hsep').mp hprefix).1
    rw [(List.cons.inj (List.append_cancel_left htail)).2]
  have hbefore : ∀ earlier ∈ [runsForJobRoute], ∀ ws,
      ¬ Fits '/' earlier.pattern ws path.toList := by
    intro earlier hmem ws hws
    obtain rfl := List.mem_singleton.mp hmem
    exact not_fits_runsForJob (hpath ▸ hws)
  rw [List.append_nil] at hfits hunique
  have hfound : Text.dispatch '/' [runsForJobRoute, getDatasetRoute, upstreamRoute, downstreamRoute]
      path.toList = some (.getDataset, [ns, name]) :=
    dispatch_of_unique [runsForJobRoute] [upstreamRoute, downstreamRoute] hbefore hfits hunique
  rw [dispatch, get_routes, hfound]
  rfl

private theorem toList_datasetPath (ns name : String) : (datasetPath ns name).toList =
    datasetsPrefix.toList ++ (ns.toList ++ '/' :: name.toList) := by
  have hslash : "/".toList = ['/'] := rfl
  simp only [datasetPath, String.toList_append, List.append_assoc, hslash, List.singleton_append]

/-- A function that a `GET` request reaches has a registered route that fits the path, and
no route before it does. -/
theorem dispatch_get_cases {path : String} {e : Endpoint} {args : List String}
    (h : dispatch .get path = some (e, args)) : ∃ ws, args = ws.map String.ofList ∧
      ∃ before route after, (routes.filter (·.1 = .get)).map (·.2) = before ++ route :: after ∧
        route.endpoint = e ∧ Fits '/' route.pattern ws path.toList ∧
        ∀ earlier ∈ before, ∀ ws', ¬ Fits '/' earlier.pattern ws' path.toList := by
  obtain ⟨⟨e', ws⟩, hfound, heq⟩ := Option.map_eq_some_iff.mp h
  obtain ⟨rfl, rfl⟩ := Prod.mk.inj heq
  exact ⟨ws, rfl, dispatch_eq_some hfound⟩

/-- No request reaches the two functions whose routes are registered after that of
`get_dataset`. -/
theorem dispatch_get_ne {path : String} {e : Endpoint} {args : List String}
    (he : e = .upstream ∨ e = .downstream) : dispatch .get path ≠ some (e, args) := by
  intro h
  obtain ⟨ws, -, before, route, after, heq, hroute, hfits, hbefore⟩ := dispatch_get_cases h
  rw [get_routes] at heq
  rcases before with _ | ⟨first, _ | ⟨second, before⟩⟩
  · obtain ⟨rfl, -⟩ := List.cons.inj heq
    rcases he with rfl | rfl <;> cases hroute
  · obtain ⟨-, heq⟩ := List.cons.inj heq
    obtain ⟨rfl, -⟩ := List.cons.inj heq
    rcases he with rfl | rfl <;> cases hroute
  · obtain ⟨-, htail⟩ := List.cons.inj heq
    obtain ⟨rfl, hlater⟩ := List.cons.inj htail
    have hmem : route ∈ before ++ route :: after := List.mem_append_right _ List.mem_cons_self
    obtain ⟨more, hmore⟩ : ∃ more, route.pattern = datasetPattern ++ more := by
      have hlast : before ++ route :: after = _ := hlater.symm
      rw [hlast] at hmem
      rcases List.mem_pair.mp hmem with rfl | rfl
      · exact ⟨[fixedText "/upstream"], rfl⟩
      · exact ⟨[fixedText "/downstream"], rfl⟩
    obtain ⟨ws', hfits'⟩ := fits_datasetPattern_of_append (hmore ▸ hfits)
    exact hbefore _ (List.mem_cons_of_mem _ List.mem_cons_self) ws' hfits'

/-- `get_dataset` is reached with the parts of its path if the first of them is a segment. -/
theorem dispatch_datasetPath_iff {ns name : String} :
    dispatch .get (datasetPath ns name) = some (.getDataset, [ns, name]) ↔
      ns ≠ "" ∧ '/' ∉ ns.toList := by
  constructor
  · intro h
    obtain ⟨ws, hargs, before, route, after, heq, hroute, hfits, -⟩ := dispatch_get_cases h
    have hpattern : route.pattern = datasetPattern ++ [] := by
      have hmem : route ∈ before ++ route :: after := List.mem_append_right _ List.mem_cons_self
      rw [← heq, get_routes] at hmem
      simp only [List.mem_cons, List.not_mem_nil, or_false] at hmem
      rcases hmem with rfl | rfl | rfl | rfl <;> cases hroute
      exact (List.append_nil datasetPattern).symm
    obtain ⟨ns', name', ws', rest, rfl, -, hne, hsep, -⟩ :=
      fits_datasetPattern_iff.mp (hpattern ▸ hfits)
    obtain ⟨rfl, -⟩ := List.cons.inj hargs
    exact ⟨by simpa using hne, by simpa using hsep⟩
  · rintro ⟨hne, hsep⟩
    have hne' : ns.toList ≠ [] := by simpa using hne
    simpa using dispatch_of_fits (toList_datasetPath ns name) hne' hsep

private theorem datasetPath_append (ns name suffix : String) :
    datasetPath ns name ++ suffix = datasetPath ns (name ++ suffix) :=
  String.append_assoc ..

/-- The paths of the two graph functions reach `get_dataset`, whose path parameter takes the
rest of the path. -/
theorem dispatch_datasetPath_append {ns name : String} (hne : ns ≠ "") (hsep : '/' ∉ ns.toList)
    (suffix : String) : dispatch .get (datasetPath ns name ++ suffix) =
      some (.getDataset, [ns, name ++ suffix]) := by
  rw [datasetPath_append]
  exact dispatch_datasetPath_iff.mpr ⟨hne, hsep⟩

/-- For no dataset do the three paths reach the three functions. -/
theorem dataset_paths_not_all_dispatched (ns name : String) :
    ¬ (dispatch .get (datasetPath ns name) = some (.getDataset, [ns, name]) ∧
       dispatch .get (datasetPath ns name ++ "/upstream") = some (.upstream, [ns, name]) ∧
       dispatch .get (datasetPath ns name ++ "/downstream") = some (.downstream, [ns, name])) := by
  rintro ⟨-, hupstream, -⟩
  exact dispatch_get_ne (.inl rfl) hupstream

/-- The upstream path of a dataset is that of another one. -/
theorem upstream_of_sales_reaches_getDataset :
    '/' ∉ "lakehouse".toList ∧ ¬ "/upstream".toList <:+ "sales".toList ∧
      ¬ "/downstream".toList <:+ "sales".toList ∧
      dispatch .get (datasetPath "lakehouse" "sales" ++ "/upstream") =
        some (.getDataset, ["lakehouse", "sales" ++ "/upstream"]) ∧
      dispatch .get (datasetPath "lakehouse" "sales" ++ "/upstream") ≠
        some (.upstream, ["lakehouse", "sales"]) := by
  refine ⟨by decide, by decide, by decide, ?_, dispatch_get_ne (.inl rfl)⟩
  exact dispatch_datasetPath_append (by decide) (by decide) "/upstream"

end DataHarbour.Lineage
