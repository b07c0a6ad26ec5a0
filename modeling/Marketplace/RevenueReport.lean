import Mathlib.Algebra.Order.BigOperators.Group.List
import Marketplace.Numbers.Binary64
import Marketplace.Relational.Queries
import Marketplace.Schema

namespace Marketplace.Report

open Relational

section Code

structure Product where
  id : ℕ
  name : String
  deriving DecidableEq, Repr

structure Order where
  id : ℕ
  status : OrderStatus
  totalAmount : ℤ
  deriving DecidableEq, Repr

structure OrderItem where
  id : ℕ
  orderId : ℕ
  productId : ℕ
  quantity : ℤ
  unitPrice : ℤ
  deriving DecidableEq, Repr

structure Tables where
  products : List Product
  orders : List Order
  orderItems : List OrderItem
  products_key : (products.map Product.id).Nodup
  orders_key : (orders.map Order.id).Nodup
  orderItems_key : (orderItems.map OrderItem.id).Nodup

structure ProductRevenueRow where
  productId : ℕ
  productName : String
  ordersCount : ℕ
  unitsSold : ℤ
  revenue : ℤ
  deriving DecidableEq, Repr

structure ReportRow where
  productId : ℕ
  productName : String
  ordersCount : ℤ
  unitsSold : ℤ
  revenueMinorUnits : ℤ
  deriving DecidableEq, Repr

abbrev JoinedRow := (OrderItem × Product) × Order

def JoinedRow.item (row : JoinedRow) : OrderItem := row.1.1

def JoinedRow.product (row : JoinedRow) : Product := row.1.2

def JoinedRow.order (row : JoinedRow) : Order := row.2

def Order.isActive (order : Order) : Bool := order.status ≠ .cancelled

def joined (t : Tables) : List JoinedRow :=
  (innerJoin (fun row order => order.id = row.1.orderId)
    (innerJoin (fun item product => product.id = item.productId) t.orderItems t.products) t.orders).filter
      fun row => row.order.isActive

-- `none` is "integer out of range"
def int4Mul (a b : ℤ) : Option ℤ := if fitsInt4 (a * b) then some (a * b) else none

-- SUM over an integer column adds in a bigint and does not look at overflow
def sumInt4 (values : List ℤ) : ℤ := values.sum.bmod (2 ^ 64)

def aggregate (group : (ℕ × String) × List JoinedRow) : Option ProductRevenueRow := do
  let amounts ← group.2.mapM fun row => int4Mul row.item.quantity row.item.unitPrice
  pure {
    productId := group.1.1
    productName := group.1.2
    ordersCount := (group.2.map fun row => row.order.id).dedup.length
    unitsSold := sumInt4 (group.2.map fun row => row.item.quantity)
    revenue := sumInt4 amounts
  }

def aggregated (t : Tables) : Option (List ProductRevenueRow) :=
  (groupBy (fun row => (row.product.id, row.product.name)) (joined t)).mapM aggregate

/-- ORDER BY revenue DESC leaves the rows of one revenue in any order. -/
def Returns (t : Tables) (rows : List ProductRevenueRow) : Prop :=
  ∃ grouped, aggregated t = some grouped ∧ rows.Perm grouped ∧ rows.Pairwise fun a b => b.revenue ≤ a.revenue

def getRawMany (t : Tables) : Option (List ProductRevenueRow) :=
  (aggregated t).map fun rows => rows.mergeSort fun a b => b.revenue ≤ a.revenue

def toReportRow (row : ProductRevenueRow) : ReportRow where
  productId := row.productId
  productName := row.productName
  ordersCount := Binary64.ofInt row.ordersCount
  unitsSold := Binary64.ofInt row.unitsSold
  revenueMinorUnits := Binary64.ofInt row.revenue

def Prints (t : Tables) (report : List ReportRow) : Prop :=
  ∃ rows, Returns t rows ∧ report = rows.map toReportRow

def revenueReport (t : Tables) : Option (List ReportRow) := (getRawMany t).map fun rows => rows.map toReportRow

theorem getRawMany_returns {t : Tables} {rows : List ProductRevenueRow} (h : getRawMany t = some rows) :
    Returns t rows := by
  obtain ⟨grouped, hgrouped, rfl⟩ := Option.map_eq_some_iff.mp h
  refine ⟨grouped, hgrouped, List.mergeSort_perm .., ?_⟩
  have htrans (a b c : ProductRevenueRow) (hab : decide (b.revenue ≤ a.revenue) = true)
      (hbc : decide (c.revenue ≤ b.revenue) = true) : decide (c.revenue ≤ a.revenue) = true := by
    simp only [decide_eq_true_eq] at hab hbc ⊢
    omega
  have htotal (a b : ProductRevenueRow) :
      (decide (b.revenue ≤ a.revenue) || decide (a.revenue ≤ b.revenue)) = true := by
    simp only [Bool.or_eq_true, decide_eq_true_eq]
    omega
  have hsorted := List.pairwise_mergeSort htrans htotal grouped
  simpa using hsorted

theorem revenueReport_prints {t : Tables} {report : List ReportRow} (h : revenueReport t = some report) :
    Prints t report := by
  obtain ⟨rows, hrows, rfl⟩ := Option.map_eq_some_iff.mp h
  exact ⟨rows, getRawMany_returns hrows, rfl⟩

end Code

def itemsOf (t : Tables) (orderId : ℕ) : List OrderItem := t.orderItems.filter fun item => item.orderId = orderId

def OrderItem.amount (item : OrderItem) : ℤ := item.quantity * item.unitPrice

/-- What the foreign keys, the CHECKs and the order service keep true. -/
structure Consistent (t : Tables) : Prop where
  product_fk : ∀ item ∈ t.orderItems, ∃ product ∈ t.products, product.id = item.productId
  order_fk : ∀ item ∈ t.orderItems, ∃ order ∈ t.orders, order.id = item.orderId
  quantity_positive : ∀ item ∈ t.orderItems, 0 < item.quantity
  price_positive : ∀ item ∈ t.orderItems, 0 < item.unitPrice
  total_int4 : ∀ order ∈ t.orders, fitsInt4 order.totalAmount
  total_eq : ∀ order ∈ t.orders, order.totalAmount = ((itemsOf t order.id).map OrderItem.amount).sum

def activeOrders (t : Tables) : List Order := t.orders.filter Order.isActive

def soldItems (t : Tables) (productId : ℕ) : List OrderItem :=
  t.orderItems.filter fun item => item.productId = productId ∧ item.orderId ∈ (activeOrders t).map Order.id

def revenueOf (t : Tables) (productId : ℕ) : ℤ := ((soldItems t productId).map OrderItem.amount).sum

section Joins

variable {t : Tables} (h : Consistent t)

include h

theorem Consistent.partners {item : OrderItem} (hitem : item ∈ t.orderItems) :
    (∃ product, t.products.filter (fun product => product.id = item.productId) = [product]) ∧
      ∃ order, t.orders.filter (fun order => order.id = item.orderId) = [order] := by
  obtain ⟨product, hproduct, hid⟩ := h.product_fk item hitem
  obtain ⟨order, horder, hid'⟩ := h.order_fk item hitem
  rw [← hid, ← hid']
  exact ⟨⟨product, filter_key t.products_key hproduct⟩, order, filter_key t.orders_key horder⟩

omit h in
theorem isActive_iff {order : Order} {id : ℕ} (horder : t.orders.filter (fun order => order.id = id) = [order]) :
    order.isActive = true ↔ id ∈ (activeOrders t).map Order.id := by
  have hmem (order' : Order) : order' ∈ t.orders ∧ order'.id = id ↔ order' = order := by
    have hfilter : order' ∈ t.orders.filter (fun order => order.id = id) ↔ order' = order := by
      rw [horder, List.mem_singleton]
    simpa using hfilter
  simp only [activeOrders, List.mem_map, List.mem_filter]
  constructor
  · intro hactive
    obtain ⟨hin, hid⟩ := (hmem order).mpr rfl
    exact ⟨order, ⟨hin, hactive⟩, hid⟩
  · rintro ⟨order', ⟨hin, hactive⟩, hid⟩
    exact (hmem order').mp ⟨hin, hid⟩ ▸ hactive

theorem Consistent.joined_items : (joined t).map JoinedRow.item =
    t.orderItems.filter fun item => item.orderId ∈ (activeOrders t).map Order.id := by
  have : Nonempty Product := ⟨⟨0, ""⟩⟩
  have : Nonempty Order := ⟨⟨0, .created, 0⟩⟩
  choose! product hproduct using fun item (hitem : item ∈ t.orderItems) => (h.partners hitem).1
  choose! order horder using fun item (hitem : item ∈ t.orderItems) => (h.partners hitem).2
  have hproducts : innerJoin (fun (item : OrderItem) product => product.id = item.productId) t.orderItems t.products =
      t.orderItems.map fun item => (item, product item) := innerJoin_eq_map hproduct
  have horders : innerJoin (fun (row : OrderItem × Product) order => order.id = row.1.orderId)
      (t.orderItems.map fun item => (item, product item)) t.orders =
        (t.orderItems.map fun item => (item, product item)).map fun row => (row, order row.1) := by
    apply innerJoin_eq_map
    intro row hrow
    obtain ⟨item, hitem, rfl⟩ := List.mem_map.mp hrow
    exact horder item hitem
  rw [joined, hproducts, horders]
  simp only [List.map_map, List.filter_map, Function.comp_def, JoinedRow.item, JoinedRow.order, List.map_id']
  refine List.filter_congr fun item hitem => ?_
  rw [Bool.eq_iff_iff, decide_eq_true_iff]
  exact isActive_iff (horder item hitem)

theorem Consistent.amount_fits {item : OrderItem} (hitem : item ∈ t.orderItems) : fitsInt4 item.amount := by
  obtain ⟨order, horder, hid⟩ := h.order_fk item hitem
  have hpositive (item : OrderItem) (hitem : item ∈ t.orderItems) : 0 < item.amount :=
    mul_pos (h.quantity_positive item hitem) (h.price_positive item hitem)
  have hle : item.amount ≤ order.totalAmount := by
    rw [h.total_eq order horder]
    refine List.single_le_sum ?_ _ (List.mem_map_of_mem (by simp [itemsOf, hitem, hid]))
    rintro amount hamount
    obtain ⟨item', hitem', rfl⟩ := List.mem_map.mp hamount
    exact (hpositive item' (List.mem_filter.mp hitem').1).le
  have htotal := h.total_int4 order horder
  simp only [fitsInt4, Bool.and_eq_true, decide_eq_true_eq] at htotal ⊢
  have := hpositive item hitem
  omega

theorem Consistent.sum_groups {κ : Type} [DecidableEq κ] (key : JoinedRow → κ) (f : OrderItem → ℤ) :
    ((groupBy key (joined t)).map fun group => (group.2.map fun row => f row.item).sum).sum =
      ((activeOrders t).map fun order => ((itemsOf t order.id).map f).sum).sum := by
  have hids : ((activeOrders t).map Order.id).Nodup := t.orders_key.sublist (List.filter_sublist.map _)
  calc ((groupBy key (joined t)).map fun group => (group.2.map fun row => f row.item).sum).sum
      = ((joined t).map fun row => f row.item).sum := sum_groupBy
    _ = (((joined t).map JoinedRow.item).map f).sum := by rw [List.map_map]; rfl
    _ = ((t.orderItems.filter fun item => item.orderId ∈ (activeOrders t).map Order.id).map f).sum := by
      rw [h.joined_items]
    _ = (((activeOrders t).map Order.id).map fun id =>
        ((t.orderItems.filter fun item => item.orderId = id).map f).sum).sum :=
      (sum_fibers hids).symm
    _ = ((activeOrders t).map fun order => ((itemsOf t order.id).map f).sum).sum := by rw [List.map_map]; rfl

end Joins

section Rows

variable {t : Tables}

abbrev productKey (row : JoinedRow) : ℕ × String := (row.product.id, row.product.name)

def summary (group : (ℕ × String) × List JoinedRow) : ProductRevenueRow where
  productId := group.1.1
  productName := group.1.2
  ordersCount := (group.2.map fun row => row.order.id).dedup.length
  unitsSold := sumInt4 (group.2.map fun row => row.item.quantity)
  revenue := sumInt4 (group.2.map fun row => row.item.amount)

theorem mem_joined {row : JoinedRow} (hrow : row ∈ joined t) :
    row.item ∈ t.orderItems ∧ row.product ∈ t.products ∧ row.product.id = row.item.productId := by
  obtain ⟨hin, -⟩ := List.mem_filter.mp hrow
  obtain ⟨hleft, -, -⟩ := mem_innerJoin.mp hin
  obtain ⟨hitem, hproduct, hid⟩ := mem_innerJoin.mp hleft
  exact ⟨hitem, hproduct, of_decide_eq_true hid⟩

theorem aggregate_eq {group : (ℕ × String) × List JoinedRow} (h : ∀ row ∈ group.2, fitsInt4 row.item.amount) :
    aggregate group = some (summary group) := by
  have hamounts : (group.2.mapM fun row => int4Mul row.item.quantity row.item.unitPrice) =
      some (group.2.map fun row => row.item.amount) := mapM_eq_map fun row hrow => if_pos (h row hrow)
  simp [aggregate, hamounts, summary]

theorem productKey_eq_iff {row row' : JoinedRow} (hrow : row ∈ joined t) (hrow' : row' ∈ joined t) :
    productKey row = productKey row' ↔ row.product.id = row'.product.id := by
  constructor
  · exact fun heq => congrArg Prod.fst heq
  · intro hid
    have hproduct := List.inj_on_of_nodup_map t.products_key (mem_joined hrow).2.1 (mem_joined hrow').2.1 hid
    rw [productKey, hproduct]

theorem summaries_nodup :
    (((groupBy productKey (joined t)).map summary).map ProductRevenueRow.productId).Nodup := by
  have hids : ((groupBy productKey (joined t)).map summary).map ProductRevenueRow.productId =
      (((joined t).map productKey).dedup).map Prod.fst := by
    rw [← groupBy_keys, List.map_map, List.map_map]
    rfl
  rw [hids]
  refine (List.nodup_dedup _).map_on ?_
  intro key hkey key' hkey' hid
  obtain ⟨row, hrow, rfl⟩ := List.mem_map.mp (List.mem_dedup.mp hkey)
  obtain ⟨row', hrow', rfl⟩ := List.mem_map.mp (List.mem_dedup.mp hkey')
  exact (productKey_eq_iff hrow hrow').mpr hid

variable (h : Consistent t)

include h

theorem Consistent.aggregated_eq : aggregated t = some ((groupBy productKey (joined t)).map summary) := by
  refine mapM_eq_map fun group hgroup => aggregate_eq fun row hrow => ?_
  rw [mem_groupBy hgroup] at hrow
  exact h.amount_fits (mem_joined (List.mem_filter.mp hrow).1).1

theorem Consistent.group_items {group : (ℕ × String) × List JoinedRow}
    (hgroup : group ∈ groupBy productKey (joined t)) : group.2.map JoinedRow.item = soldItems t group.1.1 := by
  obtain ⟨key, hkey, rfl⟩ := List.mem_map.mp hgroup
  obtain ⟨row, hrow, rfl⟩ := List.mem_map.mp (List.mem_dedup.mp hkey)
  have hsame : (joined t).filter (fun row' => productKey row' = productKey row) =
      (joined t).filter fun row' => row'.item.productId = row.product.id := by
    refine List.filter_congr fun row' hrow' => ?_
    rw [decide_eq_decide, productKey_eq_iff hrow' hrow, (mem_joined hrow').2.2]
  have hitems : ((joined t).filter fun row' => row'.item.productId = row.product.id).map JoinedRow.item =
      ((joined t).map JoinedRow.item).filter fun item => item.productId = row.product.id := by
    rw [List.filter_map]
    rfl
  rw [hsame, hitems, h.joined_items, List.filter_filter, soldItems]
  simp

variable {group : (ℕ × String) × List JoinedRow} (hgroup : group ∈ groupBy productKey (joined t))

include hgroup

theorem Consistent.sold_revenue : (group.2.map fun row => row.item.amount).sum = revenueOf t group.1.1 := by
  rw [revenueOf, ← h.group_items hgroup, List.map_map]
  rfl

variable (hbound : revenueOf t group.1.1 ≤ 2 ^ 53)

include hbound

theorem Consistent.row_exact :
    (toReportRow (summary group)).revenueMinorUnits = (group.2.map fun row => row.item.amount).sum ∧
      (toReportRow (summary group)).unitsSold = (group.2.map fun row => row.item.quantity).sum := by
  have hitem (row : JoinedRow) (hrow : row ∈ group.2) :
      0 ≤ row.item.quantity ∧ row.item.quantity ≤ row.item.amount := by
    rw [mem_groupBy hgroup] at hrow
    have hin := (mem_joined (List.mem_filter.mp hrow).1).1
    have hquantity := h.quantity_positive _ hin
    exact ⟨hquantity.le, le_mul_of_one_le_right hquantity.le (h.price_positive _ hin)⟩
  have hunits : 0 ≤ (group.2.map fun row => row.item.quantity).sum := by
    refine List.sum_nonneg fun quantity hquantity => ?_
    obtain ⟨row, hrow, rfl⟩ := List.mem_map.mp hquantity
    exact (hitem row hrow).1
  have hle : (group.2.map fun row => row.item.quantity).sum ≤ (group.2.map fun row => row.item.amount).sum :=
    List.sum_le_sum fun row hrow => (hitem row hrow).2
  have hexact (values : List ℤ) (hpos : 0 ≤ values.sum) (hle : values.sum ≤ 2 ^ 53) :
      Binary64.ofInt (sumInt4 values) = values.sum := by
    rw [sumInt4, Int.bmod_eq_of_le (by omega) (by omega), Binary64.ofInt_of_le hpos hle]
  rw [← h.sold_revenue hgroup] at hbound
  exact ⟨hexact _ (hunits.trans hle) hbound, hexact _ hunits (hle.trans hbound)⟩

end Rows

theorem Consistent.prints {t : Tables} (h : Consistent t) :
    ∃ report, revenueReport t = some report ∧ Prints t report := by
  obtain ⟨report, hreport⟩ : ∃ report, revenueReport t = some report := by
    rw [revenueReport, getRawMany, h.aggregated_eq]
    exact ⟨_, rfl⟩
  exact ⟨report, hreport, revenueReport_prints hreport⟩

theorem report_balances {t : Tables} (h : Consistent t) :
    (∃ report, revenueReport t = some report ∧ Prints t report) ∧
    (∀ row ∈ joined t, fitsInt4 (row.item.quantity * row.item.unitPrice)) ∧
    ∀ report, Prints t report → (report.map ReportRow.productId).Nodup ∧
      ((∀ row ∈ report, revenueOf t row.productId ≤ 2 ^ 53) →
      (report.map ReportRow.revenueMinorUnits).sum = ((activeOrders t).map Order.totalAmount).sum ∧
      (report.map ReportRow.unitsSold).sum =
      ((activeOrders t).map fun order => ((itemsOf t order.id).map OrderItem.quantity).sum).sum) := by
  refine ⟨h.prints, fun row hrow => h.amount_fits (mem_joined hrow).1, ?_⟩
  rintro report ⟨rows, ⟨grouped, hgrouped, hperm, -⟩, rfl⟩
  cases hgrouped.symm.trans h.aggregated_eq
  have hreport : (rows.map toReportRow).Perm
      ((groupBy productKey (joined t)).map fun group => toReportRow (summary group)) := by
    have hmapped := hperm.map toReportRow
    rwa [List.map_map] at hmapped
  constructor
  · rw [List.map_map]
    exact (hperm.map _).nodup_iff.mpr summaries_nodup
  · intro hbound
    have hexact (group : (ℕ × String) × List JoinedRow) (hgroup : group ∈ groupBy productKey (joined t)) :=
      h.row_exact hgroup (hbound _ (hreport.mem_iff.mpr (List.mem_map_of_mem hgroup)))
    have htotals : (activeOrders t).map Order.totalAmount =
        (activeOrders t).map fun order => ((itemsOf t order.id).map OrderItem.amount).sum :=
      List.map_congr_left fun order horder => h.total_eq order (List.mem_filter.mp horder).1
    constructor
    · rw [(hreport.map _).sum_eq, htotals, List.map_map, ← h.sum_groups productKey]
      exact congrArg List.sum (List.map_congr_left fun group hgroup => (hexact group hgroup).1)
    · rw [(hreport.map _).sum_eq, List.map_map, ← h.sum_groups productKey]
      exact congrArg List.sum (List.map_congr_left fun group hgroup => (hexact group hgroup).2)

def soldTables : Tables where
  products := [⟨1, "Lamp"⟩, ⟨2, "Desk"⟩]
  orders := [⟨1, .created, 500⟩, ⟨2, .cancelled, 300⟩, ⟨3, .completed, 600⟩]
  orderItems := [⟨1, 1, 1, 2, 100⟩, ⟨2, 1, 2, 1, 300⟩, ⟨3, 2, 2, 1, 300⟩, ⟨4, 3, 1, 3, 100⟩, ⟨5, 3, 2, 1, 300⟩]
  products_key := by decide
  orders_key := by decide
  orderItems_key := by decide

theorem soldTables_consistent : Consistent soldTables where
  product_fk := by decide
  order_fk := by decide
  quantity_positive := by decide
  price_positive := by decide
  total_int4 := by decide
  total_eq := by decide

def soldReport : List ReportRow := [⟨2, "Desk", 2, 2, 600⟩, ⟨1, "Lamp", 2, 5, 500⟩]

theorem soldTables_prints : Prints soldTables soldReport :=
  ⟨[⟨2, "Desk", 2, 2, 600⟩, ⟨1, "Lamp", 2, 5, 500⟩],
    ⟨[⟨1, "Lamp", 2, 5, 500⟩, ⟨2, "Desk", 2, 2, 600⟩], by decide, by decide, by decide⟩,
    by decide⟩

theorem report_balances_sold : (soldReport.map ReportRow.productId).Nodup ∧
    (soldReport.map ReportRow.revenueMinorUnits).sum = ((activeOrders soldTables).map Order.totalAmount).sum ∧
    (soldReport.map ReportRow.unitsSold).sum =
      ((activeOrders soldTables).map fun order => ((itemsOf soldTables order.id).map OrderItem.quantity).sum).sum := by
  obtain ⟨hnodup, hsums⟩ := (report_balances soldTables_consistent).2.2 soldReport soldTables_prints
  exact ⟨hnodup, hsums (by decide)⟩

section Rounding

/-- `count` orders of one lamp at the highest price that an integer column holds. -/
def lampTables (count : ℕ) : Tables where
  products := [⟨1, "Lamp"⟩]
  orders := (List.range count).map fun id => ⟨id, .created, 2147483647⟩
  orderItems := (List.range count).map fun id => ⟨id, id, 1, 1, 2147483647⟩
  products_key := by decide
  orders_key := by simpa [Function.comp_def] using List.nodup_range
  orderItems_key := by simpa [Function.comp_def] using List.nodup_range

variable {count : ℕ}

theorem lampTables_itemsOf {id : ℕ} (hid : id ∈ List.range count) :
    itemsOf (lampTables count) id = [⟨id, id, 1, 1, 2147483647⟩] := by
  have hkeys : ((lampTables count).orderItems.map OrderItem.orderId).Nodup := by
    simpa [lampTables, Function.comp_def] using List.nodup_range
  exact filter_key hkeys (List.mem_map_of_mem (f := fun id => (⟨id, id, 1, 1, 2147483647⟩ : OrderItem)) hid)

theorem lampTables_consistent (count : ℕ) : Consistent (lampTables count) where
  product_fk item hitem := by
    obtain ⟨id, -, rfl⟩ := List.mem_map.mp hitem
    exact ⟨_, List.mem_singleton_self _, rfl⟩
  order_fk item hitem := by
    obtain ⟨id, hid, rfl⟩ := List.mem_map.mp hitem
    exact ⟨_, List.mem_map_of_mem hid, rfl⟩
  quantity_positive item hitem := by
    obtain ⟨id, -, rfl⟩ := List.mem_map.mp hitem
    exact Int.one_pos
  price_positive item hitem := by
    obtain ⟨id, -, rfl⟩ := List.mem_map.mp hitem
    show (0 : ℤ) < 2147483647
    decide
  total_int4 order horder := by
    obtain ⟨id, -, rfl⟩ := List.mem_map.mp horder
    show fitsInt4 2147483647 = true
    decide
  total_eq order horder := by
    obtain ⟨id, hid, rfl⟩ := List.mem_map.mp horder
    rw [lampTables_itemsOf hid]
    rfl

theorem lampTables_totals : ((activeOrders (lampTables count)).map Order.totalAmount).sum = count * 2147483647 := by
  have hactive : activeOrders (lampTables count) = (lampTables count).orders := by
    refine List.filter_eq_self.mpr fun order horder => ?_
    obtain ⟨id, -, rfl⟩ := List.mem_map.mp horder
    rfl
  have hamounts : (lampTables count).orders.map Order.totalAmount = List.replicate count 2147483647 := by
    simp [lampTables, Function.comp_def]
  rw [hactive, hamounts, List.sum_replicate, nsmul_eq_mul]

theorem lampTables_report (hpos : 0 < count) {report : List ReportRow} (h : Prints (lampTables count) report) :
    (report.map ReportRow.revenueMinorUnits).sum = Binary64.ofInt ((count * 2147483647 : ℤ).bmod (2 ^ 64)) := by
  obtain ⟨rows, ⟨grouped, hgrouped, hperm, -⟩, rfl⟩ := h
  cases hgrouped.symm.trans (lampTables_consistent count).aggregated_eq
  have hkey (group : (ℕ × String) × List JoinedRow) (hgroup : group ∈ groupBy productKey (joined (lampTables count))) :
      group.1 = (1, "Lamp") := by
    obtain ⟨key, hkey, rfl⟩ := List.mem_map.mp hgroup
    obtain ⟨row, hrow, rfl⟩ := List.mem_map.mp (List.mem_dedup.mp hkey)
    rw [productKey, List.mem_singleton.mp (mem_joined hrow).2.1]
  have hnodup : ((groupBy productKey (joined (lampTables count))).map Prod.fst).Nodup := by
    rw [groupBy_keys]
    exact List.nodup_dedup _
  have hsum := (lampTables_consistent count).sum_groups (t := lampTables count) productKey OrderItem.amount
  rw [((hperm.map toReportRow).map _).sum_eq]
  have htotals : ((activeOrders (lampTables count)).map fun order =>
      ((itemsOf (lampTables count) order.id).map OrderItem.amount).sum).sum = count * 2147483647 := by
    rw [← lampTables_totals]
    exact congrArg List.sum (List.map_congr_left fun order horder =>
      ((lampTables_consistent count).total_eq order (List.mem_filter.mp horder).1).symm)
  rw [htotals] at hsum
  match hgroups : groupBy productKey (joined (lampTables count)) with
  | [] =>
    rw [hgroups] at hsum
    simp at hsum
    omega
  | [group] =>
    rw [hgroups] at hsum
    simp only [List.map_cons, List.map_nil, List.sum_cons, List.sum_nil, add_zero] at hsum ⊢
    exact congrArg (fun sum => Binary64.ofInt (sum.bmod (2 ^ 64))) hsum
  | first :: second :: rest =>
    rw [hgroups] at hnodup hkey
    have hne := (List.nodup_cons.mp hnodup).1
    simp [hkey first (by simp), hkey second (by simp)] at hne

/-- 4194305 such orders are 9007201398030335 minor units, which no double is. -/
theorem report_unbalanced : ¬∀ t : Tables, Consistent t → ∀ report, Prints t report →
    (report.map ReportRow.revenueMinorUnits).sum = ((activeOrders t).map Order.totalAmount).sum := by
  intro hbalances
  obtain ⟨report, -, hprints⟩ := (lampTables_consistent 4194305).prints
  have heq := hbalances _ (lampTables_consistent _) report hprints
  rw [lampTables_report (by decide) hprints, lampTables_totals] at heq
  exact absurd heq (by decide)

end Rounding

end Marketplace.Report
