import DataHarbour.Metadata.Reads
import DataHarbour.Text.RouteTemplates

/-!
# The routes of the services

The routes of the job service, the metadata service, the log service and the storage service,
with their routers' prefixes and in the order of registration. Of the requests only the method
and the path matter here: the server decodes the path once, a parameter takes one segment, a `path`
parameter takes any text, and a parameter that is a `UUID` is checked. The rate limiter, the tokens
and the checks of queries and bodies are left out.
-/

namespace DataHarbour.System

open Text

namespace Api

/-- The methods of the routes. -/
inductive Method
  | get
  | post
  | put
  | patch
  | delete
  deriving DecidableEq

/-- The services other than the lineage service. -/
inductive Service
  | job
  | metadata
  | log
  | storage
  deriving DecidableEq

/-- The functions behind the routes. -/
inductive Endpoint
  | root | liveness | readiness
  | submitJob | listJobs | getJob | cancelJob | updateJobStatus | getJobLogs
  | createSchedule | listSchedules | getSchedule | updateSchedule | deleteSchedule
  | triggerSchedule
  | createDatabase | listDatabases | getDatabase | dropDatabase | syncGlue
  | createTable | listTables | getTable | updateTable | dropTable | getTableSnapshots
  | streamJobLogs
  | createBucket | listBuckets | listObjects | getPresignedUrl | deleteObject
  deriving DecidableEq

/-- A decorator: method and path, with the function under it. -/
structure Route where
  method : Method
  path : String
  endpoint : Endpoint
  deriving DecidableEq

/-- The callback of the job service. -/
def updateJobStatusRoute : Route :=
  ⟨.put, "/api/v1/jobs/{job_id}/status", .updateJobStatus⟩

/-- `get_job_logs` of the log service. -/
def getJobLogsRoute : Route := ⟨.get, "/api/v1/logs/{job_id}", .getJobLogs⟩

/-- `delete_object`, whose key may hold slashes. -/
def deleteObjectRoute : Route :=
  ⟨.delete, "/api/v1/storage/buckets/{bucket_name}/objects/{object_key:path}", .deleteObject⟩

/-- `get_schedule`, whose id is a UUID. -/
def getScheduleRoute : Route := ⟨.get, "/api/v1/schedules/{schedule_id}", .getSchedule⟩

/-- `health.router`, which every service registers first. -/
def healthRoutes : List Route := [
  ⟨.get, "/health", .liveness⟩,
  ⟨.get, "/health/ready", .readiness⟩]

/-- `@app.get("/")`, which every service registers last. -/
def rootRoutes : List Route := [⟨.get, "/", .root⟩]

/-- `jobs.router` of the job service. -/
def jobsRoutes : List Route := [
  ⟨.post, "/api/v1/jobs/", .submitJob⟩,
  ⟨.get, "/api/v1/jobs/", .listJobs⟩,
  ⟨.get, "/api/v1/jobs/{job_id}", .getJob⟩,
  ⟨.delete, "/api/v1/jobs/{job_id}", .cancelJob⟩,
  updateJobStatusRoute,
  ⟨.get, "/api/v1/jobs/{job_id}/logs", .getJobLogs⟩]

/-- `schedules.router` of the job service. -/
def schedulesRoutes : List Route := [
  ⟨.post, "/api/v1/schedules/", .createSchedule⟩,
  ⟨.get, "/api/v1/schedules/", .listSchedules⟩,
  getScheduleRoute,
  ⟨.patch, "/api/v1/schedules/{schedule_id}", .updateSchedule⟩,
  ⟨.delete, "/api/v1/schedules/{schedule_id}", .deleteSchedule⟩,
  ⟨.post, "/api/v1/schedules/{schedule_id}/trigger", .triggerSchedule⟩]

/-- `databases.router` of the metadata service. -/
def databasesRoutes : List Route := [
  ⟨.post, "/api/v1/databases/", .createDatabase⟩,
  ⟨.get, "/api/v1/databases/", .listDatabases⟩,
  ⟨.get, "/api/v1/databases/{db_name}", .getDatabase⟩,
  ⟨.delete, "/api/v1/databases/{db_name}", .dropDatabase⟩,
  ⟨.post, "/api/v1/databases/{db_name}/sync-glue", .syncGlue⟩]

/-- `tables.router` of the metadata service. -/
def tablesRoutes : List Route := [
  ⟨.post, "/api/v1/databases/{db_name}/tables/", .createTable⟩,
  ⟨.get, "/api/v1/databases/{db_name}/tables/", .listTables⟩,
  ⟨.get, "/api/v1/databases/{db_name}/tables/{table_name}", .getTable⟩,
  ⟨.put, "/api/v1/databases/{db_name}/tables/{table_name}", .updateTable⟩,
  ⟨.delete, "/api/v1/databases/{db_name}/tables/{table_name}", .dropTable⟩,
  ⟨.get, "/api/v1/databases/{db_name}/tables/{table_name}/snapshots", .getTableSnapshots⟩]

/-- `logs.router` of the log service. -/
def logsRoutes : List Route := [
  getJobLogsRoute,
  ⟨.get, "/api/v1/logs/{job_id}/stream", .streamJobLogs⟩]

/-- `storage.router` of the storage service. -/
def storageRoutes : List Route := [
  ⟨.post, "/api/v1/storage/buckets", .createBucket⟩,
  ⟨.get, "/api/v1/storage/buckets", .listBuckets⟩,
  ⟨.get, "/api/v1/storage/buckets/{bucket_name}/objects", .listObjects⟩,
  ⟨.post, "/api/v1/storage/buckets/{bucket_name}/presigned-url", .getPresignedUrl⟩,
  deleteObjectRoute]

/-- The routes that the `main.py` of the service registers. -/
def Service.routes : Service → List Route
  | job => healthRoutes ++ jobsRoutes ++ schedulesRoutes ++ rootRoutes
  | metadata => healthRoutes ++ databasesRoutes ++ tablesRoutes ++ rootRoutes
  | log => healthRoutes ++ logsRoutes ++ rootRoutes
  | storage => healthRoutes ++ storageRoutes ++ rootRoutes

/-- What stands between two slashes of a route's path. -/
def part (text : List Char) : PathPart Char :=
  if text.head? ≠ some '\x7b' then .fixed text
  else if ":path\x7d".toList <:+ text then .rest else .param

/-- The path of a route, part by part. -/
def Route.template (route : Route) : List (PathPart Char) :=
  ((route.path.toList.splitOn '/').drop 1).map part

/-- The templates of the routes with the method. -/
def Service.table (s : Service) (method : Method) : List (List (PathPart Char) × Endpoint) :=
  (s.routes.filter (·.method = method)).map fun route => (route.template, route.endpoint)

/-- The function whose route a request matches, with its path parameters. -/
def dispatch (s : Service) (method : Method) (path : String) : Option (Endpoint × List String) :=
  (Text.dispatch '/' (templateRoutes '/' (s.table method)) path.toList).map fun found =>
    (found.1, found.2.map String.ofList)

/-- The function whose route a request for the URL matches. The path is decoded once. -/
def receive (s : Service) (method : Method) (url : List UInt8) :
    Option (Endpoint × List String) :=
  (ofUtf8? (unquote url)).bind (dispatch s method)

/-- The functions with a parameter `schedule_id: UUID`. -/
def Endpoint.takesScheduleId : Endpoint → Bool
  | getSchedule | updateSchedule | deleteSchedule | triggerSchedule => true
  | _ => false

/-- The check of the path parameters before the function is called; the others are texts. -/
def Endpoint.accepts (isUuid : String → Bool) (endpoint : Endpoint) (values : List String) : Bool :=
  !endpoint.takesScheduleId || values.all isUuid

/-- The function that a request for the path reaches; a request that fails the check is answered
422. -/
def reach (isUuid : String → Bool) (s : Service) (method : Method) (path : String) :
    Option (Endpoint × List String) :=
  (dispatch s method path).filter fun found => found.1.accepts isUuid found.2

/-- The function that a request for the URL reaches. -/
def call (isUuid : String → Bool) (s : Service) (method : Method) (url : List UInt8) :
    Option (Endpoint × List String) :=
  (ofUtf8? (unquote url)).bind (reach isUuid s method)

/-- The values are as many as the parameters, and each but that of a `path` parameter is a
segment. -/
def Route.Takes (route : Route) (values : List String) : Prop :=
  Text.Takes '/' route.template (values.map String.toList)

/-- The path with the values filled in. -/
def Route.fill (route : Route) (values : List String) : String :=
  String.ofList (Text.fill '/' route.template (values.map String.toList))

/-- The path as a client writes it into a request, with percent-encoded values. -/
def Route.url (route : Route) (values : List String) : List UInt8 :=
  fillUrl route.template values

example : Route.template ⟨.get, "/a/{b}/{c:path}", .root⟩ =
    [.fixed ['a'], .param, .rest] := by decide

/-! ## The tables -/

private theorem proper_routes (s : Service) : ∀ route ∈ s.routes, Proper '/' route.template := by
  cases s <;> decide +kernel

private theorem unescaped_routes (s : Service) :
    ∀ route ∈ s.routes, ∀ part ∈ route.template, part.Unescaped := by
  cases s <;> decide +kernel

private theorem apart_routes (s : Service) : s.routes.Pairwise fun route later =>
    route.method = later.method → apart route.template later.template = true := by
  cases s <;> decide +kernel

private theorem endpoints_nodup (s : Service) : (s.routes.map Route.endpoint).Nodup := by
  cases s <;> decide +kernel

private theorem proper_table (s : Service) (method : Method) :
    ∀ entry ∈ s.table method, Proper '/' entry.1 := by
  intro entry hentry
  obtain ⟨route, hroute, rfl⟩ := List.mem_map.mp hentry
  exact proper_routes s route (List.mem_filter.mp hroute).1

private theorem apart_table (s : Service) (method : Method) :
    (s.table method).Pairwise fun entry later => apart entry.1 later.1 = true := by
  refine List.pairwise_map.mpr (List.Pairwise.imp_of_mem ?_ ((apart_routes s).filter _))
  intro route later hroute hlater hapart
  have hmethod : ∀ r ∈ s.routes.filter (·.method = method), r.method = method := by simp
  exact hapart ((hmethod route hroute).trans (hmethod later hlater).symm)

/-- A function of a service has one template, for one method. -/
theorem mem_table_iff {s : Service} {route : Route} (hroute : route ∈ s.routes)
    {method : Method} {parts : List (PathPart Char)} :
    (parts, route.endpoint) ∈ s.table method ↔ method = route.method ∧ parts = route.template := by
  constructor
  · intro h
    obtain ⟨route', hmem, heq⟩ := List.mem_map.mp h
    obtain ⟨hroute', hmethod⟩ := List.mem_filter.mp hmem
    obtain ⟨rfl, hendpoint⟩ := Prod.mk.inj heq
    obtain rfl := List.inj_on_of_nodup_map (endpoints_nodup s) hroute' hroute hendpoint
    exact ⟨(of_decide_eq_true hmethod).symm, rfl⟩
  · rintro ⟨rfl, rfl⟩
    exact List.mem_map.mpr ⟨route, List.mem_filter.mpr ⟨hroute, decide_eq_true rfl⟩, rfl⟩

/-- The requests that reach a function with the given values. -/
theorem dispatch_iff {s : Service} {route : Route} (hroute : route ∈ s.routes)
    {method : Method} {path : String} {values : List String} :
    dispatch s method path = some (route.endpoint, values) ↔
      method = route.method ∧ path = route.fill values ∧ route.Takes values := by
  have hmap : dispatch s method path = some (route.endpoint, values) ↔
      Text.dispatch '/' (templateRoutes '/' (s.table method)) path.toList =
        some (route.endpoint, values.map String.toList) := by
    rw [dispatch, Option.map_eq_some_iff]
    constructor
    · rintro ⟨⟨e, ws⟩, hfound, heq⟩
      obtain ⟨rfl, rfl⟩ := Prod.mk.inj heq
      simpa using hfound
    · intro hfound
      exact ⟨_, hfound, by simp⟩
  rw [hmap, dispatch_templateRoutes_iff (proper_table s method) (apart_table s method)]
  constructor
  · rintro ⟨parts, hparts, htakes, htext⟩
    obtain ⟨rfl, rfl⟩ := (mem_table_iff hroute).mp hparts
    exact ⟨rfl, String.toList_inj.mp (by rw [htext, Route.fill, String.toList_ofList]), htakes⟩
  · rintro ⟨rfl, rfl, htakes⟩
    exact ⟨route.template, (mem_table_iff hroute).mpr ⟨rfl, rfl⟩, htakes, String.toList_ofList⟩

/-- The routes see the values as they are. -/
theorem receive_url {s : Service} {route : Route} (hroute : route ∈ s.routes) (method : Method)
    (values : List String) :
    receive s method (route.url values) = dispatch s method (route.fill values) := by
  rw [receive, Route.url, unquote_fillUrl (unescaped_routes s route hroute), ofUtf8?_utf8]
  rfl

/-- A function is reached where its route matches and its parameters pass the check. -/
theorem reach_iff {isUuid : String → Bool} {s : Service} {route : Route} (hroute : route ∈ s.routes)
    {method : Method} {path : String} {values : List String} :
    reach isUuid s method path = some (route.endpoint, values) ↔
      method = route.method ∧ path = route.fill values ∧ route.Takes values ∧
        route.endpoint.accepts isUuid values = true := by
  rw [reach, Option.filter_eq_some_iff, dispatch_iff hroute, and_assoc, and_assoc]

/-- **Every call has its URL.** A function of the four services is reached with the given values
by the requests with its method and its path, filled in with them, and by no others; the URL with
the values percent-encoded is such a request exactly if the values that stand for one segment are
segments and a `schedule_id` is a UUID. In particular no two calls share a URL, and the order of
the routes does not matter. -/
theorem calls_have_urls (isUuid : String → Bool) (s : Service) (route : Route)
    (hroute : route ∈ s.routes) (values : List String) :
    (∀ method path, reach isUuid s method path = some (route.endpoint, values) ↔
      method = route.method ∧ path = route.fill values ∧ route.Takes values ∧
        route.endpoint.accepts isUuid values = true) ∧
    (call isUuid s route.method (route.url values) = some (route.endpoint, values) ↔
      route.Takes values ∧ route.endpoint.accepts isUuid values = true) := by
  refine ⟨fun _ _ => reach_iff hroute, ?_⟩
  have hcall : call isUuid s route.method (route.url values) =
      reach isUuid s route.method (route.fill values) := by
    rw [call, Route.url, unquote_fillUrl (unescaped_routes s route hroute), ofUtf8?_utf8]
    rfl
  rw [hcall, reach_iff hroute]
  simp

/-- A slash in the key of an object, or a blank, is part of the key; a schedule is found by a UUID
only. -/
theorem calls_have_urls_deleteObject :
    call (fun text => text.length = 36) .storage .delete
        (utf8 "/api/v1/storage/buckets/raw/objects/2026%2F03%2Fa%20b.csv") =
      some (.deleteObject, ["raw", "2026/03/a b.csv"]) ∧
    ¬ call (fun text => text.length = 36) .job .get (getScheduleRoute.url ["abc"]) =
      some (.getSchedule, ["abc"]) := by
  have hurl : deleteObjectRoute.url ["raw", "2026/03/a b.csv"] =
        utf8 "/api/v1/storage/buckets/raw/objects/2026%2F03%2Fa%20b.csv" := by decide +kernel
  rw [← hurl]
  constructor
  · refine (calls_have_urls _ .storage _ (by decide) _).2.mpr ⟨?_, by decide⟩
    exact ⟨_, _, rfl, by decide, _, _, rfl, rfl⟩
  · intro hcall
    have haccepts := ((calls_have_urls _ .job getScheduleRoute (by decide) ["abc"]).2.mp hcall).2
    exact absurd haccepts (by decide)

/-! ## Names -/

/-- A non-empty text without slashes. -/
def IsSegment (value : String) : Prop := value ≠ "" ∧ '/' ∉ value.toList

instance (value : String) : Decidable (IsSegment value) :=
  inferInstanceAs (Decidable (value ≠ "" ∧ '/' ∉ value.toList))

/-- Segments, as many as the route has parameters. -/
theorem takes_of_segments {route : Route} (hrest : .rest ∉ route.template) {values : List String}
    (hlength : values.length = route.template.count .param)
    (h : ∀ value ∈ values, IsSegment value) : route.Takes values := by
  refine (takes_iff_forall hrest).mpr ⟨by rw [List.length_map, hlength], fun w hw => ?_⟩
  obtain ⟨value, hvalue, rfl⟩ := List.mem_map.mp hw
  obtain ⟨hne, hslash⟩ := h value hvalue
  exact ⟨by simpa using hne, hslash⟩

/-- A function whose parameters are segments is reached by its path with any segments. -/
theorem dispatch_of_segments {s : Service} {route : Route} (hroute : route ∈ s.routes)
    (hrest : .rest ∉ route.template) {values : List String}
    (hlength : values.length = route.template.count .param)
    (h : ∀ value ∈ values, IsSegment value) :
    dispatch s route.method (route.fill values) = some (route.endpoint, values) :=
  (dispatch_iff hroute).mpr ⟨rfl, rfl, takes_of_segments hrest hlength h⟩

private theorem receive_of_segments {s : Service} {route : Route} (hroute : route ∈ s.routes)
    (hrest : .rest ∉ route.template) {values : List String}
    (hlength : values.length = route.template.count .param)
    (h : ∀ value ∈ values, IsSegment value) :
    receive s route.method (route.url values) = some (route.endpoint, values) :=
  (receive_url hroute _ values).trans (dispatch_of_segments hroute hrest hlength h)

/-- The paths that the orchestrator and the job service put together for another service name
the job that they mean. -/
theorem peer_paths {jobId : String} (h : IsSegment jobId) :
    dispatch .job .put ("/api/v1/jobs/" ++ jobId ++ "/status") =
        some (.updateJobStatus, [jobId]) ∧
      dispatch .log .get ("/api/v1/logs/" ++ jobId) = some (.getJobLogs, [jobId]) := by
  have hsegments : ∀ value ∈ [jobId], IsSegment value := by simpa using h
  have hstatus : updateJobStatusRoute.template = [.fixed "api".toList, .fixed "v1".toList,
      .fixed "jobs".toList, .param, .fixed "status".toList] := by decide +kernel
  have hlogs : getJobLogsRoute.template = [.fixed "api".toList, .fixed "v1".toList,
      .fixed "logs".toList, .param] := by decide +kernel
  have hfill : updateJobStatusRoute.fill [jobId] = "/api/v1/jobs/" ++ jobId ++ "/status" := by
    apply String.ext
    simp [Route.fill, hstatus, Text.fill]
  have hfill' : getJobLogsRoute.fill [jobId] = "/api/v1/logs/" ++ jobId := by
    apply String.ext
    simp [Route.fill, hlogs, Text.fill]
  rw [← hfill, ← hfill']
  constructor
  · have hroute : updateJobStatusRoute ∈ Service.job.routes := by decide
    exact dispatch_of_segments hroute (by rw [hstatus]; decide) (by rw [hstatus]; rfl)
      hsegments
  · have hroute : getJobLogsRoute ∈ Service.log.routes := by decide
    exact dispatch_of_segments hroute (by rw [hlogs]; decide) (by rw [hlogs]; rfl) hsegments

/-! ## The catalog -/

private theorem isSegment_of_validName {name : String} (h : Metadata.validName name = true) :
    IsSegment name := by
  refine ⟨?_, Metadata.slash_notMem_of_validName h⟩
  rintro rfl
  exact absurd h (by decide)

/-- What is stored can be called. -/
structure Addressed (c : Metadata.Catalog) : Prop where
  /-- Every function for a database reaches it by its URL. -/
  databases : ∀ db ∈ c.databases.rows, ∀ route ∈ Service.metadata.routes,
    route.template.count .param = 1 →
      receive .metadata route.method (route.url [db.dbName]) = some (route.endpoint, [db.dbName])
  /-- Every function for a table reaches it by its URL, and the table is found under that name. -/
  tables : ∀ db ∈ c.databases.rows, ∀ t ∈ c.tables.rows, t.dbId = db.dbId →
    Metadata.getTable c db.dbName t.tableName = some (Metadata.toTableResponse db.dbName t) ∧
      ∀ route ∈ Service.metadata.routes, route.template.count .param = 2 →
        receive .metadata route.method (route.url [db.dbName, t.tableName]) =
          some (route.endpoint, [db.dbName, t.tableName])

/-- The routes of the metadata service take segments only. -/
theorem rest_notMem_template : ∀ route ∈ Service.metadata.routes, .rest ∉ route.template := by
  decide +kernel

/-- **Whatever is stored can be called.** Whatever requests, failing Glue calls and failing
commits have led to the catalog, every stored database and table is reached by its URL, by every
function of the metadata service that takes one. -/
theorem stored_tables_have_urls (settings : Metadata.Settings)
    (actions : List Metadata.CatalogAction) :
    Addressed (Machine.run (Metadata.act settings) Metadata.emptyService actions).catalog := by
  have hplaced := Metadata.placed_run settings actions
  constructor
  · intro db hdb route hroute hcount
    have hname := isSegment_of_validName (hplaced.databases db hdb).1
    exact receive_of_segments hroute (rest_notMem_template route hroute) hcount.symm
      (by simpa using hname)
  · intro db hdb t ht howner
    have hdbName := isSegment_of_validName (hplaced.databases db hdb).1
    have htableName := isSegment_of_validName (hplaced.tables t ht db hdb howner.symm).1
    refine ⟨?_, fun route hroute hcount => ?_⟩
    · have hfound : Metadata.Catalog.findTable _ db.dbName t.tableName = some t :=
        Metadata.findTable_iff.mpr ⟨db, hdb, rfl, ht, Prod.ext howner rfl⟩
      exact Option.map_eq_some_iff.mpr ⟨t, hfound, rfl⟩
    · exact receive_of_segments hroute (rest_notMem_template route hroute) hcount.symm
        (by simpa using ⟨hdbName, htableName⟩)

end Api

end DataHarbour.System
