import Mathlib.Data.List.Basic

/- Lists that grow at their end, and the lemmas about lists and options that are used throughout,
   under their short names. -/
namespace Yardsort.Lib

export List (all_eq_true any_eq_false append_assoc append_cancel_left append_eq_append_iff
  append_eq_nil_iff append_inj append_nil append_of_mem cons_append cons_eq_cons cons_ne_nil
  cons_prefix_cons countP_append countP_cons countP_eq_zero countP_map countP_pos_iff
  countP_singleton count_append dropLast_concat drop_append drop_append_of_le_length drop_drop
  drop_eq_nil_of_le drop_left drop_length drop_succ_cons drop_zero eq_nil_iff_forall_not_mem
  eq_nil_or_concat eraseIdx_sublist exists_cons_of_ne_nil exists_mem_of_ne_nil filterMap_append
  filterMap_congr filterMap_cons filterMap_cons_none filterMap_cons_some filterMap_nil
  filter_append filter_congr filter_cons filter_cons_of_neg filter_cons_of_pos filter_eq_nil_iff
  filter_eq_self filter_filter filter_map filter_nil filter_sublist flatMap_append flatMap_cons
  flatMap_nil flatMap_singleton flatten_append flatten_cons flatten_singleton foldl_append
  foldl_cons forall_mem_cons forall_mem_nil forall_mem_singleton infix_cons_iff
  intercalate_cons_cons intercalate_singleton intercalate_splitOn isEmpty_iff length_append
  length_cons length_drop length_eq_zero_iff length_map length_nil length_pos_iff
  length_pos_of_ne_nil length_replicate length_reverse length_singleton length_take lookup_append
  lookup_eq_some_iff map_append map_congr_left map_cons map_eq_cons_iff map_eq_nil_iff map_id
  map_map map_nil map_singleton mem_append mem_append_left mem_append_right mem_cons
  mem_cons_of_mem mem_cons_self mem_eraseIdx_iff_getElem? mem_filter mem_filterMap mem_flatMap
  mem_flatten mem_iff_getElem? mem_map mem_map_of_mem mem_mergeSort mem_of_find?_eq_some
  mem_of_getElem? mem_of_getLast? mem_of_head? mem_of_mem_filter mem_of_mem_head? mem_of_mem_take
  mem_or_eq_of_mem_set mem_range mem_reverse mem_singleton mem_singleton_self
  mem_zipIdx_iff_getElem? ne_nil_of_mem nil_append nil_prefix nodup_append nodup_cons nodup_nil
  nodup_range not_mem_nil pairwise_append pairwise_cons pairwise_map pairwise_singleton
  prefix_append prefix_append_right_inj prefix_nil prefix_refl prefix_rfl replicate_succ
  reverse_append set_getElem_self singleton_append singleton_inj splitOnP_append_cons
  splitOnP_append_cons_of_forall_mem splitOnP_cons_eq_if_modifyHead
  splitOn_append_cons_self_of_not_mem splitOn_eq_splitOnP splitOn_ne_nil sublist_append_left
  suffix_refl sum_append sum_cons sum_nil take_append_drop take_append_of_le_length take_left
  take_of_length_le take_prefix take_succ_cons take_take)
export Function (comp_apply comp_def update_of_ne update_self)
export Option (all_some any_eq_true any_some bind_eq_bind bind_eq_some_iff bind_some
  eq_none_iff_forall_ne_some filter_eq_some_iff getD_none getD_some isNone_iff_eq_none
  isSome_iff_exists isSome_iff_ne_none isSome_map isSome_none ite_none_right_eq_some
  map_eq_none_iff map_eq_some_iff map_none map_some mem_toList none_or not_mem_none toList_none
  toList_some)

theorem mem_snoc {α : Type} {l : List α} {a b : α} : a ∈ l ++ [b] ↔ a ∈ l ∨ a = b := by
  rw [List.mem_append, List.mem_singleton]

end Yardsort.Lib
