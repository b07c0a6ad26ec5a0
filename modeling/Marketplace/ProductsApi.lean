import Marketplace.AuthService

namespace Marketplace

section Code

structure CreateProductRequest where
  -- `none` is anything but a string
  name : Option String
  description : Option String
  price : JsNumber
  stockQuantity : Option JsNumber
  deriving DecidableEq, Repr

structure ProductTuple where
  ownerId : Option JsNumber
  name : Option String
  description : Option String
  price : Option JsNumber
  stockQuantity : Option JsNumber
  isActive : Option Bool
  deriving DecidableEq, Repr

-- `name || ' ' || description`, of which `search_vector` is made
def ProductTuple.searchText (row : ProductTuple) : Option String := do
  let name ← row.name
  let description ← row.description
  pure (name ++ " " ++ description)

inductive ProductColumn
  | ownerId | name | description | price | stockQuantity | isActive | searchVector
  deriving DecidableEq, Repr

def ProductTuple.isNull (row : ProductTuple) : ProductColumn → Bool
  | .ownerId => row.ownerId.isNone
  | .name => row.name.isNone
  | .description => row.description.isNone
  | .price => row.price.isNone
  | .stockQuantity => row.stockQuantity.isNone
  | .isActive => row.isActive.isNone
  | .searchVector => row.searchText.isNone

def sqlTrim (text : String) : List Char := (text.toList.dropWhile (· = ' ')).rdropWhile (· = ' ')

-- `length(trim(text)) > 0`
def notEmpty (text : String) : Bool := 0 < (sqlTrim text).length

def JsNumber.isInt4 : JsNumber → Bool
  | .integer n => fitsInt4 n
  | .other => false

def JsNumber.atLeast (bound : ℤ) : JsNumber → Bool
  | .integer n => bound ≤ n
  | .other => false

def JsNumber.isIdOf (users : ℤ → Bool) : JsNumber → Bool
  | .integer id => users id
  | .other => false

inductive ProductRule
  | encoding
  | priceIsInt4
  | stockQuantityIsInt4
  | notNull (column : ProductColumn)
  | descriptionNotEmpty
  | nameNotEmpty
  | pricePositive
  | stockNonNegative
  | ownerFk
  deriving DecidableEq, Repr

-- a CHECK of NULL passes, and so does a NULL for an integer
def ProductRule.holds (users : ℤ → Bool) (row : ProductTuple) : ProductRule → Bool
  | .encoding => row.name.all (fun text => '\x00' ∉ text.toList) && row.description.all fun text => '\x00' ∉ text.toList
  | .priceIsInt4 => row.price.all JsNumber.isInt4
  | .stockQuantityIsInt4 => row.stockQuantity.all JsNumber.isInt4
  | .notNull column => !row.isNull column
  | .descriptionNotEmpty => row.description.all notEmpty
  | .nameNotEmpty => row.name.all notEmpty
  | .pricePositive => row.price.all (JsNumber.atLeast 1)
  | .stockNonNegative => row.stockQuantity.all (JsNumber.atLeast 0)
  | .ownerFk => row.ownerId.all (JsNumber.isIdOf users)

def productRules : List ProductRule :=
  [.encoding, .priceIsInt4, .stockQuantityIsInt4, .notNull .ownerId, .notNull .name, .notNull .description,
    .notNull .price, .notNull .stockQuantity, .notNull .isActive, .notNull .searchVector, .descriptionNotEmpty,
    .nameNotEmpty, .pricePositive, .stockNonNegative, .ownerFk]

def insertProduct (users : ℤ → Bool) (row : ProductTuple) : Except ProductRule ProductTuple :=
  match productRules.find? fun rule => !rule.holds users row with
  | some rule => .error rule
  | none => .ok row

inductive ProductFailure
  | badRequest (message : String)
  | database (violated : ProductRule)
  deriving DecidableEq, Repr

structure ProductResponse extends ProductTuple where
  id : ℕ
  deriving DecidableEq, Repr

def JsNumber.isNonNegativeInteger : JsNumber → Bool
  | .integer n => 0 ≤ n
  | .other => false

-- `String.prototype.trim`
def jsTrim (text : String) : String :=
  String.ofList ((text.toList.dropWhile isJsWhitespace).rdropWhile isJsWhitespace)

-- the checks of `createProduct`, and the parameters of its INSERT
def productValues (user : Option AccessTokenPayload) (body : CreateProductRequest) :
    Except ProductFailure ProductTuple := do
  let some user := user | throw (.badRequest "Authenticated user is required")
  let some name := body.name | throw (.badRequest "Product name is required")
  if isBlank name then throw (.badRequest "Product name is required")
  if !body.price.isPositiveInteger then throw (.badRequest "Product price must be a positive integer")
  let stockQuantity := body.stockQuantity.getD (.integer 0)
  if !stockQuantity.isNonNegativeInteger then throw (.badRequest "Stock quantity must be a non-negative integer")
  pure ⟨jsNumber user.sub, jsTrim name, body.description, body.price, stockQuantity, true⟩

/-- The answer with the `id` that BIGSERIAL draws. -/
def createProduct (users : ℤ → Bool) (id : ℕ) (user : Option AccessTokenPayload) (body : CreateProductRequest) :
    Except ProductFailure ProductResponse := do
  let values ← productValues user body
  match insertProduct users values with
  | .error rule => throw (.database rule)
  | .ok row => pure { row with id := id }

end Code

section Texts

variable {p : Char → Bool} {text : List Char} {c : Char}

theorem mem_trimmed_iff (hc : ¬p c) : c ∈ (text.dropWhile p).rdropWhile p ↔ c ∈ text := by
  constructor
  · exact fun h => (List.dropWhile_suffix p).subset ((List.rdropWhile_prefix _ _).subset h)
  · intro h
    rw [← List.takeWhile_append_dropWhile (p := p) (l := text)] at h
    rcases List.mem_append.mp h with hhead | hrest
    · exact absurd (List.mem_takeWhile_imp hhead) hc
    · rw [← List.rdropWhile_append_rtakeWhile (p := p) (l := text.dropWhile p)] at hrest
      rcases List.mem_append.mp hrest with htrimmed | htail
      · exact htrimmed
      · exact absurd (List.mem_rtakeWhile_imp htail) hc

theorem trimmed_ne_nil_iff : (text.dropWhile p).rdropWhile p ≠ [] ↔ ∃ c ∈ text, ¬p c := by
  constructor
  · intro h
    have hlast := List.rdropWhile_last_not p (text.dropWhile p) h
    exact ⟨_, (mem_trimmed_iff hlast).mp (List.getLast_mem h), hlast⟩
  · rintro ⟨c, hmem, hc⟩ hnil
    have htrimmed := (mem_trimmed_iff hc).mpr hmem
    rw [hnil] at htrimmed
    cases htrimmed

theorem notEmpty_iff {text : String} : notEmpty text = true ↔ ∃ c ∈ text.toList, c ≠ ' ' := by
  have htrimmed : sqlTrim text ≠ [] ↔ ∃ c ∈ text.toList, ¬decide (c = ' ') := trimmed_ne_nil_iff
  simpa [notEmpty, List.length_pos_iff] using htrimmed

theorem toList_jsTrim {text : String} :
    (jsTrim text).toList = (text.toList.dropWhile isJsWhitespace).rdropWhile isJsWhitespace := String.toList_ofList

theorem notEmpty_jsTrim {text : String} (h : isBlank text = false) : notEmpty (jsTrim text) = true := by
  obtain ⟨c, hmem, hc⟩ := List.all_eq_false.mp h
  refine notEmpty_iff.mpr ⟨c, ?_, ?_⟩
  · rw [toList_jsTrim]
    exact (mem_trimmed_iff hc).mpr hmem
  · rintro rfl
    exact hc (by decide)

theorem nul_mem_jsTrim_iff {text : String} : '\x00' ∈ (jsTrim text).toList ↔ '\x00' ∈ text.toList := by
  rw [toList_jsTrim]
  exact mem_trimmed_iff (by decide)

end Texts

section Insert

variable {users : ℤ → Bool} {row row' : ProductTuple}

theorem mem_productRules (rule : ProductRule) : rule ∈ productRules := by
  cases rule with
  | notNull column => cases column <;> decide
  | _ => decide

theorem insertProduct_eq_ok_iff : insertProduct users row = .ok row' ↔
    row' = row ∧ ∀ rule : ProductRule, rule.holds users row := by
  unfold insertProduct
  cases hfind : productRules.find? (fun rule => !rule.holds users row) with
  | some rule =>
    have hviolated := List.find?_some hfind
    constructor
    · intro h
      cases h
    · rintro ⟨-, hholds⟩
      simp [hholds rule] at hviolated
  | none =>
    have hholds : ∀ rule : ProductRule, rule.holds users row := by
      intro rule
      simpa using List.find?_eq_none.mp hfind rule (mem_productRules rule)
    constructor
    · intro h
      cases h
      exact ⟨rfl, hholds⟩
    · rintro ⟨rfl, -⟩
      rfl

end Insert

section Validation

variable {users : ℤ → Bool} {user : AccessTokenPayload} {body : CreateProductRequest} {values : ProductTuple}

structure Checked (user : AccessTokenPayload) (body : CreateProductRequest) (name : String) (price stock : ℤ)
    (values : ProductTuple) : Prop where
  name_eq : body.name = some name
  nonblank : isBlank name = false
  price_eq : body.price = .integer price
  positive : 0 < price
  stock_eq : body.stockQuantity.getD (.integer 0) = .integer stock
  nonNegative : 0 ≤ stock
  values_eq : values =
    ⟨jsNumber user.sub, jsTrim name, body.description, some (.integer price), some (.integer stock), true⟩

theorem isPositiveInteger_iff {number : JsNumber} : number.isPositiveInteger = true ↔
    ∃ n, number = .integer n ∧ 0 < n := by
  cases number <;> simp [JsNumber.isPositiveInteger]

theorem isNonNegativeInteger_iff {number : JsNumber} :
    number.isNonNegativeInteger = true ↔ ∃ n, number = .integer n ∧ 0 ≤ n := by
  cases number <;> simp [JsNumber.isNonNegativeInteger]

theorem productValues_checked (h : productValues (some user) body = .ok values) :
    ∃ name price stock, Checked user body name price stock values := by
  obtain ⟨name, description, price, stockQuantity⟩ := body
  unfold productValues at h
  cases name with
  | none => cases h
  | some name =>
    dsimp only at h
    cases hblank : isBlank name with
    | true =>
      rw [hblank] at h
      cases h
    | false =>
      rw [hblank] at h
      cases hprice : price.isPositiveInteger with
      | false =>
        rw [hprice] at h
        cases h
      | true =>
        rw [hprice] at h
        cases hstock : (stockQuantity.getD (.integer 0)).isNonNegativeInteger with
        | false =>
          rw [hstock] at h
          cases h
        | true =>
          rw [hstock] at h
          cases h
          obtain ⟨n, rfl, hn⟩ := isPositiveInteger_iff.mp hprice
          obtain ⟨stock, hstock, hnonneg⟩ := isNonNegativeInteger_iff.mp hstock
          exact ⟨name, n, stock, rfl, hblank, rfl, hn, hstock, hnonneg, by rw [hstock]⟩

/-- The description is given and not only spaces, the numbers fit their columns and no text holds a NUL. -/
structure FitsTable (body : CreateProductRequest) : Prop where
  described : ∃ description, body.description = some description ∧ ∃ c ∈ description.toList, c ≠ ' '
  price : ∀ n, body.price = .integer n → n ≤ 2147483647
  stockQuantity : ∀ n, body.stockQuantity = some (.integer n) → n ≤ 2147483647
  noNul : ∀ text, body.name = some text ∨ body.description = some text → '\x00' ∉ text.toList

theorem isInt4_iff {n : ℤ} (h : 0 ≤ n) : (JsNumber.integer n).isInt4 = true ↔ n ≤ 2147483647 := by
  simp only [JsNumber.isInt4, fitsInt4, Bool.and_eq_true, decide_eq_true_eq]
  omega

variable {name : String} {price stock : ℤ}

theorem Checked.stock_le_iff (h : Checked user body name price stock values) :
    stock ≤ 2147483647 ↔ ∀ n, body.stockQuantity = some (.integer n) → n ≤ 2147483647 := by
  have hstock := h.stock_eq
  cases hbody : body.stockQuantity with
  | none =>
    rw [hbody] at hstock
    cases hstock
    simp
  | some number =>
    rw [hbody] at hstock
    cases hstock
    simp

theorem Checked.holds_iff (h : Checked user body name price stock values)
    (howner : (jsNumber user.sub).isIdOf users = true) :
    (∀ rule : ProductRule, rule.holds users values) ↔ FitsTable body := by
  obtain rfl := h.values_eq
  have hname := notEmpty_jsTrim h.nonblank
  constructor
  · intro hrules
    have hgiven : body.description.isSome := by
      simpa [ProductRule.holds, ProductTuple.isNull] using hrules (.notNull .description)
    obtain ⟨description, hdescription⟩ := Option.isSome_iff_exists.mp hgiven
    have hempty : notEmpty description = true := by
      simpa [ProductRule.holds, hdescription] using hrules .descriptionNotEmpty
    have hnul : '\x00' ∉ name.toList ∧ '\x00' ∉ description.toList := by
      simpa [ProductRule.holds, hdescription, nul_mem_jsTrim_iff] using hrules .encoding
    refine ⟨⟨description, hdescription, notEmpty_iff.mp hempty⟩, fun n hn => ?_, ?_, fun text htext => ?_⟩
    · rw [h.price_eq] at hn
      cases hn
      exact (isInt4_iff h.positive.le).mp (hrules .priceIsInt4)
    · exact h.stock_le_iff.mp ((isInt4_iff h.nonNegative).mp (hrules .stockQuantityIsInt4))
    · rcases htext with htext | htext
      · rw [h.name_eq] at htext
        cases htext
        exact hnul.1
      · rw [hdescription] at htext
        cases htext
        exact hnul.2
  · intro hfits rule
    obtain ⟨description, hdescription, hempty⟩ := hfits.described
    cases rule with
    | encoding =>
      have hnul := hfits.noNul name (.inl h.name_eq)
      have hnul' := hfits.noNul description (.inr hdescription)
      simp [ProductRule.holds, hdescription, nul_mem_jsTrim_iff, hnul, hnul']
    | priceIsInt4 => exact (isInt4_iff h.positive.le).mpr (hfits.price price h.price_eq)
    | stockQuantityIsInt4 => exact (isInt4_iff h.nonNegative).mpr (h.stock_le_iff.mpr hfits.stockQuantity)
    | notNull column => cases column <;>
      simp [ProductRule.holds, ProductTuple.isNull, ProductTuple.searchText, hdescription]
    | descriptionNotEmpty => simp [ProductRule.holds, hdescription, notEmpty_iff.mpr hempty]
    | nameNotEmpty => simp [ProductRule.holds, hname]
    | pricePositive => exact decide_eq_true h.positive
    | stockNonNegative => exact decide_eq_true h.nonNegative
    | ownerFk => exact howner

/-- A body that passes the checks is stored just if it fits the table as well. -/
theorem product_validation_sound_iff {id : ℕ} (howner : (jsNumber user.sub).isIdOf users = true)
    (hchecks : productValues (some user) body = .ok values) :
    ((∀ rule : ProductRule, rule.holds users values) ∧
      ∀ rule, createProduct users id (some user) body ≠ .error (.database rule)) ↔ FitsTable body := by
  obtain ⟨name, price, stock, hchecked⟩ := productValues_checked hchecks
  rw [← hchecked.holds_iff howner]
  refine ⟨fun h => h.1, fun hrules => ⟨hrules, fun rule herror => ?_⟩⟩
  have hinsert := insertProduct_eq_ok_iff.mpr ⟨rfl, hrules⟩
  simp only [createProduct, hchecks, bind, Except.bind, hinsert] at herror
  cases herror

def sellerToken : AccessTokenPayload := ⟨"1", .seller, "a1", "f1", none⟩

theorem product_validation_sound_described :
    FitsTable ⟨some "Lamp", some "Desk lamp", .integer 1000, none⟩ ∧
      ∀ rule, createProduct (· = 1) 1 sellerToken ⟨some "Lamp", some "Desk lamp", .integer 1000, none⟩ ≠
      .error (.database rule) := by
  have hfits : FitsTable ⟨some "Lamp", some "Desk lamp", .integer 1000, none⟩ := by
    refine ⟨⟨"Desk lamp", rfl, 'D', by decide, by decide⟩, ?_, ?_, ?_⟩
    · rintro n ⟨⟩
      decide
    · rintro n ⟨⟩
    · intro text htext
      rcases htext with htext | htext
      · rw [← Option.some.inj htext]
        decide
      · rw [← Option.some.inj htext]
        decide
  have howner : (jsNumber sellerToken.sub).isIdOf (· = 1) = true := rfl
  exact ⟨hfits, ((product_validation_sound_iff howner rfl).mpr hfits).2⟩

theorem omitted_description_rejected : ¬ ∀ (users : ℤ → Bool) (id : ℕ) (user : AccessTokenPayload) body values,
    (jsNumber user.sub).isIdOf users = true → productValues (some user) body = .ok values →
      (∀ rule : ProductRule, rule.holds users values) ∧
      ∀ rule, createProduct users id (some user) body ≠ .error (.database rule) := by
  intro h
  have hlamp := (h (· = 1) 1 sellerToken ⟨some "Lamp", none, .integer 1000, none⟩ _ rfl rfl).2 (.notNull .description)
  exact hlamp rfl

end Validation

end Marketplace
