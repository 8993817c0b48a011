import Mathlib.Data.List.Forall2
import Yardsort.Remote.Activity
import Yardsort.Remote.Page

/- How much room the parts of a message take at most, and that a page always has room for an
   event.

   Each kind of text an event carries has its bound from the check it passed: a code has nothing
   in it to escape, a name and a path hold no control character. -/
namespace Yardsort.Remote
open Yardsort.Lib Yardsort.Proto Yardsort.Remote.Activity

theorem idByte_plain {b : UInt8} (h : idByte b = true) : Json.escape b = [b] := by
  have hne : ∀ k, idByte k = false → b ≠ k := by
    intro k hk heq
    rw [heq, hk] at h
    cases h
  have hlow : ¬ b < 0x20 := by
    intro hlt
    have hlt : b.toNat < 32 := UInt8.lt_iff_toNat_lt.mp hlt
    simp [idByte, UInt8.le_iff_toNat_le, ← UInt8.toNat_inj] at h
    omega
  rw [Json.escape, if_neg (hne _ (by decide)), if_neg (hne _ (by decide)),
    if_neg (hne _ (by decide)), if_neg (hne _ (by decide)), if_neg (hne _ (by decide)),
    if_neg (hne _ (by decide)), if_neg (hne _ (by decide)), if_neg hlow]

theorem plain_length {text : String} (h : (utf8 text).all idByte = true) :
    (Json.string text).length = (utf8 text).length + 2 :=
  Json.string_plain_length fun b hb => idByte_plain (all_eq_true.mp h b hb)

theorem Id.plain (id : Proto.Id) :
    (utf8 id.text).length ≤ MAX_ID_LEN ∧ (utf8 id.text).all idByte = true := by
  have hok := id.ok
  unfold checkId at hok
  split at hok
  · cases hok
  split at hok
  · cases hok
  · rename_i hlen
    split at hok
    · rename_i hall
      exact ⟨Nat.not_lt.mp hlen, hall⟩
    · cases hok

theorem idJson_length (id : Proto.Id) : (idJson id).length ≤ 130 := by
  obtain ⟨hlen, hall⟩ := Id.plain id
  rw [idJson, plain_length hall]
  exact Nat.add_le_add_right hlen 2

theorem int64Json_length (n : Int64) : (int64Json n).length ≤ 20 := by
  refine Json.int_length_le (k := 19) (by decide) ?_
  have hlow := n.le_toInt
  have hhigh := n.toInt_lt
  omega

theorem uint64Json_length (n : UInt64) : (uint64Json n).length ≤ 20 :=
  Json.number_length_le (by decide) (Nat.lt_trans n.toNat_lt (by decide))

theorem objectOf_within {fields : List (String × Option Bytes)} {most : List Nat}
    (h : List.Forall₂ (fun f n => ∀ value ∈ f.2, value.length ≤ n) fields most) :
    (objectOf fields).length ≤ Json.keysLength (fields.map (·.1)) + most.sum + 2 := by
  have hparts := Json.object_parts_le (fields.filterMap written)
  have hle : Json.keysLength ((fields.filterMap written).map (·.1)) +
      ((fields.filterMap written).map (·.2.length)).sum ≤
      Json.keysLength (fields.map (·.1)) + most.sum := by
    clear hparts
    induction h with
    | nil => exact Nat.le_refl _
    | @cons f n fields most hf _ ih =>
      obtain ⟨key, value⟩ := f
      simp only [Json.keysLength] at ih ⊢
      cases value with
      | none =>
        simp only [map_cons, sum_cons, filterMap_cons, written, map_none]
        omega
      | some value =>
        have := hf value rfl
        simp only [map_cons, sum_cons, filterMap_cons, written, map_some]
        omega
  rw [objectOf]
  omega

theorem code_length {text shown : String} (h : code text = some shown) :
    (Json.string shown).length ≤ 66 := by
  unfold code at h
  split at h
  · rename_i hok
    cases h
    rw [plain_length hok.2.2]
    exact Nat.add_le_add_right hok.2.1 2
  · cases h

theorem printed_of_not_control {text : List Char} (h : (!text.any isControl) = true) :
    ∀ c ∈ text, 0x20 ≤ c.val.toNat := by
  intro c hc
  by_contra hlow
  have hcontrol : isControl c = true := by
    rw [isControl]
    simp only [Bool.or_eq_true, decide_eq_true_eq]
    exact .inl (Nat.not_le.mp hlow)
  rw [List.any_eq_true.mpr ⟨c, hc, hcontrol⟩] at h
  cases h

theorem name_length {text shown : String} (h : name text = some shown) :
    (Json.string shown).length ≤ 514 := by
  unfold name at h
  dsimp only at h
  split at h
  · rename_i hok
    obtain ⟨-, hlen, hprinted, -⟩ := hok
    cases h
    have := Json.string_printed_le (s := String.ofList (Text.trim text.toList)) (by
      rw [String.toList_ofList]
      exact printed_of_not_control hprinted)
    rw [String.toList_ofList] at this
    have hmax : (Text.trim text.toList).length ≤ 128 := hlen
    omega
  · cases h

theorem path_length {text shown : String} (h : insideWorkspace text = some shown) :
    (Json.string shown).length ≤ 2050 := by
  unfold insideWorkspace at h
  split at h
  · rename_i hok
    obtain ⟨-, hlen, hprinted, -⟩ := hok
    cases h
    have := Json.string_printed_bytes_le (printed_of_not_control hprinted)
    have hmax : (utf8 text).length ≤ 1024 := hlen
    omega
  · cases h

def Within (most : Nat) (value : Option Bytes) : Prop := ∀ bytes ∈ value, bytes.length ≤ most

theorem within_map {α : Type} {write : α → Bytes} {most : Nat} {value : Option α}
    (h : ∀ a ∈ value, (write a).length ≤ most) : Within most (value.map write) := by
  intro bytes hbytes
  obtain ⟨a, ha, rfl⟩ := map_eq_some_iff.mp hbytes
  exact h a ha

theorem within_bind {α : Type} {read : α → Option String} {most : Nat} {value : Option α}
    (h : ∀ a shown, read a = some shown → (Json.string shown).length ≤ most) :
    Within most ((value.bind read).map Json.string) := by
  refine within_map fun shown hshown => ?_
  obtain ⟨a, -, hread⟩ := bind_eq_some_iff.mp hshown
  exact h a shown hread

section
variable (p : Payload) (field : String)

theorem codes_within :
    Within 66 (((p field).bind Value.asStr |>.bind code).map Json.string) :=
  within_bind fun _ _ => code_length

theorem names_within :
    Within 514 (((p field).bind Value.asStr |>.bind name).map Json.string) :=
  within_bind fun _ _ => name_length

theorem counts_within : Within 20 (((p field).bind Value.asU64).map uint64Json) :=
  within_map fun n _ => uint64Json_length n

theorem bools_within : Within 5 (((p field).bind Value.asBool).map Json.bool) :=
  within_map fun b _ => Json.bool_length_le b

end

def detailKeys : List String := [
  "harness", "runKind", "program", "model", "continuation", "launchedBy", "capture", "forkedFrom",
  "exitCode", "success", "signal", "via", "reason", "tool", "subagentType", "path",
  "pathOutsideWorkspace", "change", "status", "durationMs", "chars", "decision", "waitMs",
  "notification", "errorType", "agentType", "trigger", "outcome", "turnNumber", "contextTokens",
  "contextWindow", "totalTokens", "outputTokens", "note"]

def detailMost : List Nat :=
  [514, 66, 514, 514, 66, 66, 66, 130, 20, 5, 66, 66, 66, 514, 514, 2050, 5, 66, 66, 20, 20, 66, 20,
    66, 66, 514, 66, 66, 20, 20, 20, 20, 20, 66]

theorem ite_within {c : Prop} [Decidable c] {most : Nat} {value : Option String}
    (h : Within most (value.map Json.string)) :
    Within most ((if c then value else none).map Json.string) := by
  split
  · exact h
  · exact fun _ hbytes => (not_mem_none _ hbytes).elim

theorem detail_within (kind : String) (p : Payload) :
    List.Forall₂ (fun f n => Within n f.2) (detail kind p).fields detailMost := by
  have hkind : Within 66 ((detail kind p).runKind.map Json.string) ∧
      Within 66 ((detail kind p).change.map Json.string) := by
    have hnone : Within 66 ((none : Option String).map Json.string) :=
      fun _ hbytes => (not_mem_none _ hbytes).elim
    unfold detail
    dsimp only
    split
    · exact ⟨codes_within p "kind", hnone⟩
    · split
      · exact ⟨hnone, codes_within p "kind"⟩
      · exact ⟨hnone, hnone⟩
  have hprogram : Within 514 ((detail kind p).program.map Json.string) := by
    refine within_map fun shown hshown => ?_
    obtain ⟨hname, -⟩ := filter_eq_some_iff.mp hshown
    obtain ⟨text, -, hread⟩ := bind_eq_some_iff.mp hname
    exact name_length hread
  have htool : Within 514 ((detail kind p).tool.map Json.string) := by
    refine within_map fun shown hshown => ?_
    obtain hname | ⟨-, hname⟩ := Option.or_eq_some_iff.mp hshown <;>
      · obtain ⟨text, -, hread⟩ := bind_eq_some_iff.mp hname
        exact name_length hread
  have hforked : Within 130 ((detail kind p).forkedFrom.map idJson) :=
    within_map fun id _ => idJson_length id
  have hexit : Within 20 ((detail kind p).exitCode.map int64Json) :=
    within_map fun n _ => int64Json_length n
  have hpath : Within 2050 ((detail kind p).path.map Json.string) :=
    within_bind fun _ _ => path_length
  have hnotification : Within 66 ((detail kind p).notification.map Json.string) :=
    ite_within (codes_within p "type")
  have hcode := codes_within p
  have hname := names_within p
  have hcount := counts_within p
  have hbool := bools_within p
  exact .cons (hname _) <| .cons hkind.1 <| .cons hprogram <| .cons (hname _) <|
    .cons (hcode _) <| .cons (hcode _) <| .cons (hcode _) <| .cons hforked <| .cons hexit <|
    .cons (hbool _) <| .cons (hcode _) <| .cons (hcode _) <| .cons (hcode _) <| .cons htool <|
    .cons (hname _) <| .cons hpath <| .cons (hbool _) <| .cons hkind.2 <| .cons (hcode _) <|
    .cons (hcount _) <| .cons (hcount _) <| .cons (hcode _) <| .cons (hcount _) <|
    .cons hnotification <| .cons (hcode _) <| .cons (hname _) <| .cons (hcode _) <|
    .cons (hcode _) <| .cons (hcount _) <| .cons (hcount _) <| .cons (hcount _) <|
    .cons (hcount _) <| .cons (hcount _) <| .cons (hcode _) .nil

theorem event_length {read : String → Payload} {row : EventRow} {e : ActivityEvent}
    (h : event read row = some e) : e.json.length ≤ 9000 := by
  unfold event at h
  split at h
  · cases h
  simp only [bind_eq_bind, bind_eq_some_iff] at h
  obtain ⟨id, -, workspace, -, kind, hkind, producer, hproducer, method, hmethod, fidelity,
    hfidelity, heq⟩ := h
  cases heq
  have hdetail := objectOf_within (detail_within row.kind (read row.payload))
  have hsource := @Json.object_within [
    ("producer", Json.string producer), ("method", Json.string method),
    ("fidelity", Json.string fidelity)] [66, 66, 66]
    (.cons (code_length hproducer) <| .cons (code_length hmethod) <|
      .cons (code_length hfidelity) .nil)
  have hoption : ∀ id : Option Proto.Id, (Json.option idJson id).length ≤ 130 :=
    fun id => Json.option_length_le (by decide) fun id _ => idJson_length id
  have hevent := @Json.object_within [
    ("id", idJson id), ("workspace", idJson workspace),
    ("session", Json.option idJson (row.sessionId.bind id?)),
    ("run", Json.option idJson (row.runId.bind id?)),
    ("occurredAt", int64Json row.occurredAt), ("kind", Json.string kind),
    ("source", (Provenance.mk producer method fidelity).json),
    ("detail", objectOf (detail row.kind (read row.payload)).fields)] _
    (.cons (idJson_length id) <| .cons (idJson_length workspace) <| .cons (hoption _) <|
      .cons (hoption _) <| .cons (int64Json_length _) <| .cons (code_length hkind) <|
      .cons hsource <| .cons hdetail .nil)
  refine Nat.le_trans hevent ?_
  show Json.keysLength ["id", "workspace", "session", "run", "occurredAt", "kind", "source",
      "detail"] + [130, 130, 130, 130, 20, 66,
        Json.keysLength ["producer", "method", "fidelity"] + [66, 66, 66].sum + 2,
        Json.keysLength detailKeys + detailMost.sum + 2].sum + 2 ≤ 9000
  decide +kernel

def eventsSize (shown : List ActivityEvent) : Nat :=
  (Json.object (ActivityPage.fields ⟨shown, none, none⟩)).length

/-- **There is room for an event on a page.** -/
theorem event_fits {read : String → Payload} (row : EventRow) :
    eventsSize ([row].filterMap (event read)) ≤ PAGE_BUDGET := by
  have harray : (Json.array (([row].filterMap (event read)).map ActivityEvent.json)).length ≤
      9003 := by
    rw [Json.array_length]
    cases h : event read row with
    | none =>
      rw [filterMap_cons_none h]
      simp only [filterMap_nil, map_nil, sum_nil, length_nil]
      omega
    | some e =>
      have := event_length h
      rw [filterMap_cons_some h]
      simp only [filterMap_nil, map_cons, map_nil, sum_cons, sum_nil,
        length_cons, length_nil]
      omega
  have hnull : (cursorJson none).length ≤ 4 := by decide +kernel
  have hpage := @Json.object_within (ActivityPage.fields
    ⟨[row].filterMap (event read), none, none⟩) _ (.cons harray <| .cons hnull <| .cons hnull .nil)
  refine Nat.le_trans hpage ?_
  show Json.keysLength ["events", "older", "newer"] + [9003, 4, 4].sum + 2 ≤ PAGE_BUDGET
  decide +kernel

end Yardsort.Remote
