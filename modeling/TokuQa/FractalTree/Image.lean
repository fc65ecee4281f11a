import Mathlib.Data.List.Basic

/-!
# The image of a fractal tree file

`create_ft_image` of `tokuftimage.py` gives every block of 4096 bytes a pixel, row by row. A
block that is used is black or gray, and what is behind the end of the file is to be red: the
number of the image's rows is rounded up, and the image is always larger than the file.

`last_file_block` is the number of the first block that is not in the file, or the one behind it,
and the loop begins behind `last_file_block`. So there is always a pixel behind the end of the
file that stays white (`not_faithful`). Nothing else is wrong with the red part, no pixel outside the
image is asked for, and a block that an extent fills is drawn unless the extent begins and
ends in the middle of blocks and the two parts add up to a block (`createFtImage_spec`,
`not_mem_blocks_iff`).
-/

set_option autoImplicit false

namespace TokuQa.FractalTree.FtImage

inductive Color where
  | white
  | black
  | gray
  | red
deriving DecidableEq

/-- The pixel map; `pixel x y` is in column `x` of row `y`. -/
structure Image where
  width : Nat
  height : Nat
  pixel : Nat → Nat → Color

/-- A row of the table, with a position and a size. -/
structure Block where
  offset : Nat
  size : Nat
  offset_pos : 0 < offset
  size_pos : 0 < size

namespace Image

/-- `Image.new`. -/
def new (width height : Nat) : Image := ⟨width, height, fun _ _ => .white⟩

/-- The pixel of a block. -/
def at_ (img : Image) (block : Nat) : Color := img.pixel (block % img.width) (block / img.width)

/-- `pixels[y,x] = color`; `none` is an `IndexError`. -/
def set (img : Image) (block : Nat) (color : Color) : Option Image :=
  let x := block / img.width
  let y := block % img.width
  if y < img.width ∧ x < img.height then
    some { img with pixel := fun y' x' => if y' = y ∧ x' = x then color else img.pixel y' x' }
  else none

/-- The blocks get the colors of a brush, which changes from block to block. -/
def paint {σ : Type} (brush : σ → Color × σ) : List Nat → σ → Image → Option (σ × Image)
  | [], s, img => some (s, img)
  | block :: blocks, s, img => do
    let (color, s) := brush s
    paint brush blocks s (← img.set block color)

end Image

/-- `gray` says if the next block is gray. -/
def blackAndGray (gray : Bool) : Color × Bool := if gray then (.gray, false) else (.black, true)

def redOnly (_ : Unit) : Color × Unit := (.red, ())

/-- The blocks from `starting_block` on. -/
def Block.blocks (b : Block) : List Nat := List.range' (b.offset / 4096) (b.size / 4096)

/-- The blocks of the whole table. -/
def drawTable : List Block → Bool → Image → Option (Bool × Image)
  | [], gray, img => some (gray, img)
  | b :: ftbat, gray, img => do
    let (gray, img) ← img.paint blackAndGray b.blocks gray
    drawTable ftbat gray img

/-- `create_ft_image`; `none` is an `IndexError`, also that of an empty table. -/
def createFtImage (ftbat : List Block) (width ftfilesize : Nat) : Option Image := do
  let _ ← ftbat.getLast?
  let numBlocks := ftfilesize / 4096 + 1
  let numImageLines := numBlocks / width + 1
  let lastFileBlock := ftfilesize / 4096 + 1
  let lastImageBlock := numImageLines * width
  let (_, img) ← drawTable ftbat false (.new width numImageLines)
  let (_, img) ← img.paint redOnly
    (List.range' (lastFileBlock + 1) (lastImageBlock - (lastFileBlock + 1))) ()
  return img

/-! ## What it is for -/

def Drawn (c : Color) : Prop := c = .black ∨ c = .gray

/-- The block has a byte of the file. -/
def IsFileBlock (ftfilesize block : Nat) : Prop := block * 4096 < ftfilesize

/-- The block is wholly in the extent. -/
def Block.Fills (b : Block) (block : Nat) : Prop :=
  b.offset ≤ block * 4096 ∧ (block + 1) * 4096 ≤ b.offset + b.size

instance (b : Block) (block : Nat) : Decidable (b.Fills block) :=
  inferInstanceAs (Decidable (_ ∧ _))

/-- The image is made; the blocks that extents fill are drawn, and red is what is not the file's. -/
def Faithful (ftbat : List Block) (width ftfilesize : Nat) : Prop :=
  ∃ img, createFtImage ftbat width ftfilesize = some img ∧
    (∀ block, (∃ b ∈ ftbat, b.Fills block) → Drawn (img.at_ block)) ∧
    ∀ block < img.width * img.height,
      img.at_ block = .red ↔ ¬ IsFileBlock ftfilesize block

/-! ## Painting -/

namespace Image

variable {σ : Type} {img img' : Image} {block : Nat} {color : Color}

theorem div_lt_height (h : block < img.width * img.height) :
    block % img.width < img.width ∧ block / img.width < img.height := by
  have hpos : 0 < img.width := Nat.pos_of_mul_pos_right (Nat.zero_lt_of_lt h)
  exact ⟨Nat.mod_lt _ hpos, Nat.div_lt_of_lt_mul h⟩

/-- Blocks with one pixel are the same. -/
theorem set_spec (h : block < img.width * img.height) (color : Color) :
    ∃ img', img.set block color = some img' ∧ img'.width = img.width ∧
      img'.height = img.height ∧
      ∀ block', img'.at_ block' = if block' = block then color else img.at_ block' := by
  refine ⟨_, if_pos (div_lt_height h), rfl, rfl, fun block' => ?_⟩
  have hsame : (block' % img.width = block % img.width ∧
      block' / img.width = block / img.width) ↔ block' = block := by
    constructor
    · rintro ⟨hmod, hdiv⟩
      rw [← Nat.div_add_mod block' img.width, ← Nat.div_add_mod block img.width, hmod, hdiv]
    · rintro rfl
      exact ⟨rfl, rfl⟩
  simp only [at_, hsame]

/-- What a brush leaves: its colors at the blocks, and all others as they were. -/
theorem paint_spec (brush : σ → Color × σ) {blocks : List Nat} (s : σ)
    (h : ∀ block ∈ blocks, block < img.width * img.height) :
    ∃ s' img', img.paint brush blocks s = some (s', img') ∧ img'.width = img.width ∧
      img'.height = img.height ∧
      (∀ block ∈ blocks, ∃ s, img'.at_ block = (brush s).1) ∧
      ∀ block, block ∉ blocks → img'.at_ block = img.at_ block := by
  induction blocks generalizing s img with
  | nil => exact ⟨s, img, rfl, rfl, rfl, by simp, fun _ _ => rfl⟩
  | cons block blocks ih =>
    obtain ⟨img₁, hset, hw, hh, hat⟩ := set_spec (h block List.mem_cons_self) (brush s).1
    have hrest : ∀ block ∈ blocks, block < img₁.width * img₁.height := by
      intro block hblock
      rw [hw, hh]
      exact h block (List.mem_cons_of_mem _ hblock)
    obtain ⟨s', img', hpaint, hw', hh', hin, hout⟩ := ih (brush s).2 hrest
    refine ⟨s', img', ?_, hw'.trans hw, hh'.trans hh, fun b hb => ?_, fun b hb => ?_⟩
    · simp only [paint, hset, Option.bind_eq_bind, Option.bind_some, hpaint]
    · by_cases hmem : b ∈ blocks
      · exact hin b hmem
      · obtain rfl : b = block := (List.mem_cons.mp hb).resolve_right hmem
        exact ⟨s, by rw [hout b hmem, hat, if_pos rfl]⟩
    · obtain ⟨hne, hmem⟩ := not_or.mp (mt List.mem_cons.mpr hb)
      rw [hout b hmem, hat, if_neg hne]

end Image

theorem drawn_blackAndGray (gray : Bool) : Drawn (blackAndGray gray).1 := by
  cases gray with
  | false => exact .inl rfl
  | true => exact .inr rfl

theorem drawTable_spec {ftbat : List Block} {img : Image} (gray : Bool)
    (h : ∀ b ∈ ftbat, ∀ block ∈ b.blocks, block < img.width * img.height) :
    ∃ gray' img', drawTable ftbat gray img = some (gray', img') ∧ img'.width = img.width ∧
      img'.height = img.height ∧
      (∀ b ∈ ftbat, ∀ block ∈ b.blocks, Drawn (img'.at_ block)) ∧
      ∀ block, (∀ b ∈ ftbat, block ∉ b.blocks) → img'.at_ block = img.at_ block := by
  induction ftbat generalizing gray img with
  | nil => exact ⟨gray, img, rfl, rfl, rfl, by simp, fun _ _ => rfl⟩
  | cons b ftbat ih =>
    obtain ⟨gray₁, img₁, hpaint, hw, hh, hin, hout⟩ :=
      Image.paint_spec blackAndGray gray (h b List.mem_cons_self)
    have hrest : ∀ b ∈ ftbat, ∀ block ∈ b.blocks, block < img₁.width * img₁.height := by
      intro b hb block hblock
      rw [hw, hh]
      exact h b (List.mem_cons_of_mem _ hb) block hblock
    obtain ⟨gray', img', hdraw, hw', hh', hin', hout'⟩ := ih gray₁ hrest
    refine ⟨gray', img', ?_, hw'.trans hw, hh'.trans hh, fun b' hb' block hblock => ?_,
      fun block hblock => ?_⟩
    · simp only [drawTable, hpaint, Option.bind_eq_bind, Option.bind_some, hdraw]
    · by_cases hlater : ∃ b ∈ ftbat, block ∈ b.blocks
      · obtain ⟨b'', hb'', hblock''⟩ := hlater
        exact hin' b'' hb'' block hblock''
      · -- the last extent with the block is the first of the table
        have hnot : ∀ b ∈ ftbat, block ∉ b.blocks := fun b hb hmem => hlater ⟨b, hb, hmem⟩
        obtain rfl : b' = b := (List.mem_cons.mp hb').resolve_right fun hb' => hnot b' hb' hblock
        obtain ⟨g, hg⟩ := hin block hblock
        rw [hout' block hnot, hg]
        exact drawn_blackAndGray g
    · have hfirst := hout block (hblock b List.mem_cons_self)
      exact (hout' block fun b hb => hblock b (List.mem_cons_of_mem _ hb)).trans hfirst

/-! ## The image -/

variable {ftbat : List Block} {width ftfilesize block : Nat}

/-- An extent's blocks are the file's. -/
theorem lt_of_mem_blocks {b : Block} (hin : b.offset + b.size ≤ ftfilesize)
    (h : block ∈ b.blocks) : block < ftfilesize / 4096 := by
  rw [Block.blocks, List.mem_range'_1] at h
  omega

/-- **What is drawn and what is red**: no pixel outside the image is asked for. -/
theorem createFtImage_spec (hwidth : 0 < width) (hne : ftbat ≠ [])
    (hin : ∀ b ∈ ftbat, b.offset + b.size ≤ ftfilesize) :
    ∃ img, createFtImage ftbat width ftfilesize = some img ∧ img.width = width ∧
      img.height = (ftfilesize / 4096 + 1) / width + 1 ∧
      ∀ block < img.width * img.height,
        (Drawn (img.at_ block) ↔ ∃ b ∈ ftbat, block ∈ b.blocks) ∧
        (img.at_ block = .red ↔ ftfilesize / 4096 + 2 ≤ block) := by
  have hsize : ftfilesize / 4096 + 1 < width * ((ftfilesize / 4096 + 1) / width + 1) :=
    Nat.lt_mul_div_succ _ hwidth
  have htable : ∀ b ∈ ftbat, ∀ block ∈ b.blocks,
      block < (Image.new width ((ftfilesize / 4096 + 1) / width + 1)).width *
        (Image.new width ((ftfilesize / 4096 + 1) / width + 1)).height := by
    intro b hb block hblock
    have hlt := lt_of_mem_blocks (hin b hb) hblock
    exact Nat.lt_trans (Nat.lt_succ_of_lt hlt) hsize
  obtain ⟨gray, img₁, hdraw, hw, hh, hdrawn, hwhite⟩ := drawTable_spec false htable
  have hred : ∀ block ∈ List.range' (ftfilesize / 4096 + 1 + 1)
      (((ftfilesize / 4096 + 1) / width + 1) * width - (ftfilesize / 4096 + 1 + 1)),
      block < img₁.width * img₁.height := by
    intro block hblock
    rw [List.mem_range'_1] at hblock
    rw [hw, hh]
    change block < width * ((ftfilesize / 4096 + 1) / width + 1)
    rw [Nat.mul_comm width] at hsize ⊢
    omega
  obtain ⟨u, img, hpaint, hw', hh', hin', hout'⟩ := img₁.paint_spec redOnly () hred
  refine ⟨img, ?_, hw'.trans hw, hh'.trans hh, fun block hblock => ?_⟩
  · simp only [createFtImage, List.getLast?_eq_some_getLast hne, hdraw, hpaint,
      Option.bind_eq_bind, Option.bind_some]
    rfl
  rw [hw', hh', hw, hh] at hblock
  change block < width * ((ftfilesize / 4096 + 1) / width + 1) at hblock
  rw [Nat.mul_comm width] at hblock
  rcases Nat.lt_or_ge block (ftfilesize / 4096 + 2) with hlt | hge
  · -- the red part is not reached
    have hsame : img.at_ block = img₁.at_ block := by
      refine hout' block fun hmem => ?_
      rw [List.mem_range'_1] at hmem
      omega
    rw [hsame]
    by_cases hsome : ∃ b ∈ ftbat, block ∈ b.blocks
    · obtain ⟨b, hb, hmem⟩ := hsome
      have hcolor := hdrawn b hb block hmem
      refine ⟨iff_of_true hcolor ⟨b, hb, hmem⟩, iff_of_false (fun h => ?_) (by omega)⟩
      rw [h] at hcolor
      exact absurd hcolor (by simp [Drawn])
    · have hcolor : img₁.at_ block = .white :=
        hwhite block fun b hb hmem => hsome ⟨b, hb, hmem⟩
      rw [hcolor]
      exact ⟨iff_of_false (by simp [Drawn]) hsome, iff_of_false (by simp) (by omega)⟩
  · obtain ⟨u, hcolor⟩ := hin' block (by rw [List.mem_range'_1]; omega)
    have hnot : ¬ ∃ b ∈ ftbat, block ∈ b.blocks := by
      rintro ⟨b, hb, hmem⟩
      have hlt := lt_of_mem_blocks (hin b hb) hmem
      omega
    rw [hcolor]
    exact ⟨iff_of_false (by simp [Drawn, redOnly]) hnot, iff_of_true rfl hge⟩

/-- A block that an extent fills is not among those it draws: its last one, when the parts of
blocks at the two ends add up to a block. -/
theorem not_mem_blocks_iff (b : Block) (block : Nat) : b.Fills block ∧ block ∉ b.blocks ↔
    block = b.offset / 4096 + b.size / 4096 ∧ 4096 ≤ b.size ∧
      4096 ≤ b.offset % 4096 + b.size % 4096 := by
  rw [Block.Fills, Block.blocks, List.mem_range'_1]
  omega

/-- The pixel behind that of the last block is of no block of the file, and it is white. -/
theorem createFtImage_white (hwidth : 0 < width)
    (hin : ∀ b ∈ ftbat, b.offset + b.size ≤ ftfilesize) {img : Image}
    (h : createFtImage ftbat width ftfilesize = some img) :
    ftfilesize / 4096 + 1 < img.width * img.height ∧
      ¬ IsFileBlock ftfilesize (ftfilesize / 4096 + 1) ∧
      img.at_ (ftfilesize / 4096 + 1) ≠ .red := by
  have hne : ftbat ≠ [] := by
    rintro rfl
    exact absurd h (by simp [createFtImage])
  obtain ⟨img', himg', hw, hh, hat⟩ := createFtImage_spec hwidth hne hin
  obtain rfl : img' = img := Option.some.inj (himg'.symm.trans h)
  have hlt : ftfilesize / 4096 + 1 < img'.width * img'.height := by
    rw [hw, hh]
    exact Nat.lt_mul_div_succ _ hwidth
  refine ⟨hlt, ?_, fun hred => ?_⟩
  · unfold IsFileBlock
    omega
  · have hle := (hat _ hlt).2.mp hred
    omega

/-- **No image is faithful.** -/
theorem not_faithful (hwidth : 0 < width)
    (hin : ∀ b ∈ ftbat, b.offset + b.size ≤ ftfilesize) : ¬ Faithful ftbat width ftfilesize := by
  rintro ⟨img, himg, -, hred⟩
  obtain ⟨hlt, hnot, hwhite⟩ := createFtImage_white hwidth hin himg
  exact hwhite ((hred _ hlt).mpr hnot)

/-- A file of two blocks, the second of which is used. -/
def twoBlocks : List Block := [⟨4096, 4096, by decide, by decide⟩]

theorem not_faithful_two_blocks : ¬ Faithful twoBlocks 4 8192 :=
  not_faithful (by decide) (by decide)

/-- In a row of four pixels nothing is red. -/
theorem two_blocks_white :
    (createFtImage twoBlocks 4 8192).map (fun img => (List.range 4).map img.at_) =
      some [.white, .black, .white, .white] ∧ ¬ Faithful twoBlocks 4 8192 := by
  refine ⟨by decide +kernel, ?_⟩
  rintro ⟨img, himg, -, hred⟩
  obtain ⟨hlt, hnot, hwhite⟩ := createFtImage_white (by decide) (by decide) himg
  exact hwhite ((hred _ hlt).mpr hnot)

end TokuQa.FractalTree.FtImage
