import DataHarbour.JobService.Operations
import DataHarbour.Relational.Paging
import Mathlib.Data.List.Perm.Basic

/-!
# Listing jobs page by page

`list_jobs` counts the rows that its filters let through and returns one page of them, latest
submission first. Jobs with the same `submitted_at` have no order among themselves.
-/

namespace DataHarbour.JobService

open Relational

/-- `JobListResponse`. -/
structure JobListResponse where
  total : ℕ
  page : ℕ
  pageSize : ℕ
  jobs : List JobResponse

/-- The filters of `list_jobs`. -/
structure JobFilters where
  status : Option String := none
  jobType : Option String := none
  submittedBy : Option String := none

/-- `if filter: query.where(column == filter)`. -/
def admits (filter : Option String) (column : String) : Bool :=
  match filter with
  | none => true
  | some text => text = "" ∨ column = text

/-- The rows that the filters let through. -/
def selectJobs (jobs : Table Job.jobId) (filters : JobFilters) : List Job :=
  jobs.rows.filter fun job =>
    admits filters.status job.status.value && admits filters.jobType job.jobType.value &&
      admits filters.submittedBy job.submittedBy

/-- `list_jobs` for a page from 1 on; `answer` has the rows in the order of the query. -/
def listJobs (jobs : Table Job.jobId) (filters : JobFilters)
    (answer : Descending Job.submittedAt (selectJobs jobs filters)) (page pageSize : ℕ) :
    JobListResponse where
  total := (selectJobs jobs filters).length
  page := page
  pageSize := pageSize
  jobs := (limit ((page - 1) * pageSize) pageSize answer.list).map Job.toResponse

/-- The pages until an empty one hold each matching job once, and every page tells how many
there are, whatever order each query gives to jobs of one time. -/
structure ListedOnce (jobs : Table Job.jobId) (filters : JobFilters) (pageSize : ℕ) : Prop where
  total : ∀ answer page,
    (listJobs jobs filters answer page pageSize).total = (selectJobs jobs filters).length
  pages : ∀ answers : ℕ → Descending Job.submittedAt (selectJobs jobs filters), ∀ fuel,
    (selectJobs jobs filters).length < fuel →
    ∃ all, fetchAll (fun page => (listJobs jobs filters (answers page) page pageSize).jobs) fuel 1 =
      some all ∧ all.Perm ((selectJobs jobs filters).map Job.toResponse)

variable {jobs : Table Job.jobId} {filters : JobFilters} {pageSize : ℕ}

private theorem nodup_selectJobs (jobs : Table Job.jobId) (filters : JobFilters) :
    (selectJobs jobs filters).Nodup :=
  jobs.nodup.of_map.filter _

/-- A response shows the whole row. -/
theorem toResponse_injective : Function.Injective Job.toResponse := by
  intro job job' h
  cases job
  cases job'
  simpa [Job.toResponse] using h

/-- **Pages of jobs.** The pages of `list_jobs` hold each matching job once if and only if, for
each time of submission, the first and the last of the matching jobs of that time stand on one
page. -/
theorem listed_once_iff (hsize : 1 ≤ pageSize) :
    ListedOnce jobs filters pageSize ↔
      TiesOnOnePage Job.submittedAt (selectJobs jobs filters) pageSize := by
  rw [← pagesPartition_iff (nodup_selectJobs jobs filters) hsize]
  constructor
  · intro h answers fuel hfuel
    obtain ⟨all, hall, hperm⟩ := h.pages answers fuel hfuel
    simp only [listJobs, fetchAll_map, Option.map_eq_some_iff] at hall
    obtain ⟨rows, hrows, rfl⟩ := hall
    exact ⟨rows, hrows, (List.map_perm_map_iff toResponse_injective).mp hperm⟩
  · intro h
    refine ⟨fun _ _ => rfl, fun answers fuel hfuel => ?_⟩
    obtain ⟨rows, hrows, hperm⟩ := h answers fuel hfuel
    refine ⟨rows.map Job.toResponse, ?_, hperm.map Job.toResponse⟩
    simp only [listJobs, fetchAll_map, hrows, Option.map_some]

/-- Two jobs submitted at one time, and a third one before them. -/
def firstJob : Job := newJob "job-1" 7 sampleRequest
def secondJob : Job := newJob "job-2" 7 sampleRequest
def earlierJob : Job := newJob "job-3" 5 sampleRequest

/-- The table of the three. -/
def threeJobs : Table Job.jobId where
  rows := [firstJob, secondJob, earlierJob]
  nodup := by decide

/-- `listed_once_iff` at pages of two jobs. -/
theorem listed_once_pages_of_two : ListedOnce threeJobs {} 2 :=
  (listed_once_iff (by decide)).mpr (by decide)

/-- Pages of one job show the first of these jobs twice and the second one never, when the query
for the second page has them the other way round. -/
theorem pages_of_one_repeat_job : ¬ ListedOnce threeJobs {} 1 := by
  intro h
  let answer : Descending Job.submittedAt (selectJobs threeJobs {}) :=
    ⟨[firstJob, secondJob, earlierJob], List.Perm.refl _, by decide⟩
  let other : Descending Job.submittedAt (selectJobs threeJobs {}) :=
    ⟨[secondJob, firstJob, earlierJob], List.Perm.swap _ _ _, by decide⟩
  obtain ⟨all, hall, hperm⟩ :=
    h.pages (fun page => if page = 2 then other else answer) 4 (by decide)
  have htwice : all = [firstJob, firstJob, earlierJob].map Job.toResponse :=
    (Option.some_inj.mp hall).symm
  rw [htwice, List.map_perm_map_iff toResponse_injective] at hperm
  have hids := (hperm.map Job.jobId).nodup_iff.mpr (by decide)
  exact absurd hids (by decide)

end DataHarbour.JobService
