import DataHarbour.Lineage.Routes
import DataHarbour.Text.PercentEncoding

/-!
# Dataset URLs

A client puts the namespace and the name of a dataset into a URL, each percent-encoded, so that
the slash between them is the only one that is not encoded. The server decodes the path before
the routes see it.
-/

namespace DataHarbour.Lineage

open Text

/-- The path of a dataset as a client writes it into a request. -/
def datasetUrl (ns name : String) : List UInt8 :=
  utf8 datasetsPrefix ++ (quote (utf8 ns) ++ 0x2f :: quote (utf8 name))

/-- The function that a `GET` of a URL reaches. The path is decoded once. -/
def get (url : List UInt8) : Option (Endpoint × List String) :=
  (ofUtf8? (unquote url)).bind (dispatch .get)

/-- The routes see the namespace and the name as they are. -/
theorem get_datasetUrl (ns name : String) :
    get (datasetUrl ns name) = dispatch .get (datasetPath ns name) := by
  have hplain : (0x25 : UInt8) ∉ utf8 datasetsPrefix := by decide
  have hslash : utf8 "/" = [0x2f] := by decide
  have hbytes : unquote (datasetUrl ns name) = utf8 (datasetPath ns name) := by
    rw [datasetUrl, unquote_append_of_plain hplain, unquote_quote_append,
      unquote_cons_of_ne (by decide), unquote_quote, datasetPath, utf8_append, utf8_append,
      utf8_append, hslash, List.append_assoc, List.append_assoc, List.singleton_append]
  rw [get, hbytes, ofUtf8?_utf8, Option.bind_some]

/-- Different datasets have different URLs. -/
theorem datasetUrl_inj {ns ns' name name' : String}
    (h : datasetUrl ns name = datasetUrl ns' name') : ns = ns' ∧ name = name' := by
  have htail := List.append_cancel_left h
  have hprefix : quote (utf8 ns) ++ 0x2f :: quote (utf8 name) <+:
      quote (utf8 ns') ++ 0x2f :: quote (utf8 name') := htail ▸ List.prefix_rfl
  have hclosed (text : String) : (0x2f : UInt8) ∉ quote (utf8 text) :=
    not_mem_quote (by decide) (by decide) (utf8 text)
  have hns := ((prefix_closed_iff (hclosed ns) (hclosed ns')).mp hprefix).1
  rw [hns] at htail
  have hname := (List.cons.inj (List.append_cancel_left htail)).2
  exact ⟨utf8_injective (quote_injective hns), utf8_injective (quote_injective hname)⟩

/-- The URL of a dataset with a slash in its namespace reaches the dataset that has the part
before the slash as its namespace. -/
theorem get_datasetUrl_of_slash {first : String} (hne : first ≠ "") (hsep : '/' ∉ first.toList)
    (rest name : String) : get (datasetUrl (first ++ "/" ++ rest) name) =
      some (.getDataset, [first, rest ++ "/" ++ name]) := by
  have hpath : datasetPath (first ++ "/" ++ rest) name =
      datasetPath first (rest ++ "/" ++ name) := by
    simp only [datasetPath, String.append_assoc]
  rw [get_datasetUrl, hpath]
  exact dispatch_datasetPath_iff.mpr ⟨hne, hsep⟩

/-- The URL of a dataset leads to it, and to it alone, if its namespace is without slashes. -/
theorem datasetUrl_round_trip_iff {ns name : String} (hns : ns ≠ "") :
    (get (datasetUrl ns name) = some (.getDataset, [ns, name]) ∧
      ∀ ns' name', datasetUrl ns' name' = datasetUrl ns name → ns' = ns ∧ name' = name) ↔
    '/' ∉ ns.toList := by
  rw [get_datasetUrl, dispatch_datasetPath_iff]
  constructor
  · rintro ⟨⟨-, hsep⟩, -⟩
    exact hsep
  · intro hsep
    exact ⟨⟨hns, hsep⟩, fun ns' name' h => datasetUrl_inj h⟩

/-- The condition at the namespace `dhp` and the name `sales`. -/
theorem datasetUrl_round_trip_sales :
    (get (datasetUrl "dhp" "sales") = some (.getDataset, ["dhp", "sales"]) ∧
      ∀ ns' name', datasetUrl ns' name' = datasetUrl "dhp" "sales" →
        ns' = "dhp" ∧ name' = "sales") ↔
    '/' ∉ "dhp".toList :=
  datasetUrl_round_trip_iff (by decide)

/-- The dataset of the runbook is looked up in the namespace `s3:`. -/
theorem bucket_url_reaches_another_dataset :
    get (datasetUrl "s3://lakehouse-raw" "sales") =
        some (.getDataset, ["s3:", "/lakehouse-raw/sales"]) ∧
      get (datasetUrl "s3://lakehouse-raw" "sales") ≠
        some (.getDataset, ["s3://lakehouse-raw", "sales"]) := by
  have hprefix : "s3:" ≠ "" ∧ '/' ∉ "s3:".toList := by decide
  have hfound : get (datasetUrl "s3://lakehouse-raw" "sales") =
      some (.getDataset, ["s3:", "/lakehouse-raw/sales"]) :=
    get_datasetUrl_of_slash hprefix.1 hprefix.2 "/lakehouse-raw" "sales"
  rw [hfound]
  exact ⟨rfl, by decide⟩

end DataHarbour.Lineage
