import Mathlib
import WineForge.Regions.RegionRuns

/-!
# The visible region of a window

`get_visible_region` takes the area of a window and clips it to the client areas of the ancestors.
The children, the siblings above the window and those above its ancestors are cut out.
-/

namespace WineForge.Windows

open List Regions

/-- The fields of `struct window` that clipping reads, with the styles as booleans. -/
structure Window where
  windowRect : Rect
  visibleRect : Rect
  surfaceRect : Rect
  clientRect : Rect
  winRegion : Option Region
  visible : Bool
  minimize : Bool
  clipSiblings : Bool
  transparent : Bool

/-- A window with the siblings above it in the Z order, and its ancestors with theirs. -/
inductive Placed
  | desktop (win : Window)
  | child (win : Window) (above : List Window) (parent : Placed)

def Placed.win : Placed → Window
  | desktop win => win
  | child win _ _ => win

def isVisible : Placed → Bool
  | .desktop win => win.visible
  | .child win _ parent => win.visible && !parent.win.minimize && isVisible parent

/-- `intersect_region( region, region, src )`. -/
def intersectInto (region src : Region) : Region :=
  intersectRegion (fun l : Bool => if l then region else src) true true false true

/-- `subtract_region( region, region, src )`. -/
def subtractFrom (region src : Region) : Region :=
  subtractRegion (fun l : Bool => if l then region else src) true true false true

def intersectRect (src1 src2 : Rect) : Rect where
  left := max src1.left src2.left
  top := max src1.top src2.top
  right := min src1.right src2.right
  bottom := min src1.bottom src2.bottom

/-- Does nothing for a window without a region, as its callers do. -/
def intersectWindowRegion (region : Region) (win : Window) : Region :=
  match win.winRegion with
  | none => region
  | some winRegion =>
    let region := offsetRegion region (-win.windowRect.left) (-win.windowRect.top)
    offsetRegion (intersectInto region winRegion) win.windowRect.left win.windowRect.top

def clipChildren (region : Region) (offset : Int × Int) : List Window → Region
  | [] => region
  | ptr :: children =>
    if ptr.visible = false ∨ ptr.transparent = true then clipChildren region offset children
    else
      let tmp := intersectWindowRegion (setRegionRect ptr.visibleRect) ptr
      let region := subtractFrom region (offsetRegion tmp offset.1 offset.2)
      if region.rects = [] then region else clipChildren region offset children

def setRegionClientRect (win : Window) : Region :=
  setRegionRect (intersectRect (intersectRect win.windowRect win.clientRect) win.surfaceRect)

def setRegionVisibleRect (win : Window) : Region :=
  setRegionRect (intersectRect win.visibleRect win.surfaceRect)

/-- The loop of `get_visible_region`, each exit of which goes to the last `offset_region`. -/
def clipAncestors (region : Region) (offset : Int × Int) : Placed → Region
  | .child win above (.child up ups top) =>
    let region := if win.clipSiblings then clipChildren region 0 above else region
    if win.clipSiblings = true ∧ region.rects = [] then offsetRegion region (-offset.1) (-offset.2)
    else
      let offset := offset + (up.clientRect.left, up.clientRect.top)
      let region := offsetRegion region up.clientRect.left up.clientRect.top
      let region := intersectInto region (intersectWindowRegion (setRegionClientRect up) up)
      if region.rects = [] then offsetRegion region (-offset.1) (-offset.2)
      else clipAncestors region offset (.child up ups top)
  | _ => offsetRegion region (-offset.1) (-offset.2)

/-- `DCX_WINDOW`, `DCX_CLIPCHILDREN` and `DCX_PARENTCLIP`. -/
structure DcxFlags where
  window : Bool
  clipChildren : Bool
  parentClip : Bool

/-- The region relative to the parent that is clipped. -/
def ownRegion (win : Window) (parent : Placed) (flags : DcxFlags) : Region :=
  match parent, flags.parentClip with
  | .child up _ _, true =>
    offsetRegion (setRegionClientRect up) (-up.clientRect.left) (-up.clientRect.top)
  | _, _ =>
    if flags.window then intersectWindowRegion (setRegionVisibleRect win) win
    else intersectWindowRegion (setRegionClientRect win) win

def getVisibleRegion (place : Placed) (children : List Window) (flags : DcxFlags) : Region :=
  if isVisible place = false then createEmptyRegion
  else match place with
    | .desktop win => setRegionRect win.windowRect
    | .child win above parent =>
      let region := ownRegion win parent flags
      let region :=
        if flags.clipChildren then
          clipChildren region (win.clientRect.left, win.clientRect.top) children
        else region
      clipAncestors region (win.windowRect.left, win.windowRect.top) (.child win above parent)

def origin (r : Rect) : Int × Int := (r.left, r.top)

def Window.shape (win : Window) : Set (Int × Int) :=
  {p | ∀ r ∈ win.winRegion, p - origin win.windowRect ∈ points r.rects}

def Window.clientBox (win : Window) : Set (Int × Int) :=
  {p | win.windowRect.Contains p ∧ win.clientRect.Contains p ∧ win.surfaceRect.Contains p}

def Window.visibleBox (win : Window) : Set (Int × Int) :=
  {p | win.visibleRect.Contains p ∧ win.surfaceRect.Contains p}

/-- The points that a list of windows hides. -/
def hidden (wins : List Window) : Set (Int × Int) :=
  {p | ∃ w ∈ wins, w.visible = true ∧ w.transparent = false ∧ w.visibleRect.Contains p ∧
    p ∈ w.shape}

/-- The points, relative to the parent, that neither a sibling nor an ancestor clips. -/
def Placed.unclipped : Placed → Set (Int × Int)
  | child win above (child up ups top) =>
    {p | (win.clipSiblings = true → p ∉ hidden above) ∧
      p + origin up.clientRect ∈ up.clientBox ∩ up.shape ∩ (child up ups top).unclipped}
  | _ => Set.univ

def ownArea (win : Window) (parent : Placed) (flags : DcxFlags) : Set (Int × Int) :=
  match parent, flags.parentClip with
  | .child up _ _, true => {p | p + origin up.clientRect ∈ up.clientBox}
  | _, _ => if flags.window then win.visibleBox ∩ win.shape else win.clientBox ∩ win.shape

/-- The points, relative to the window, that should be in its visible region. -/
def visibleArea (place : Placed) (children : List Window) (flags : DcxFlags) : Set (Int × Int) :=
  {p | isVisible place = true ∧ match place with
    | .desktop win => win.windowRect.Contains p
    | .child win _ parent =>
      p + origin win.windowRect ∈ ownArea win parent flags ∩ place.unclipped ∧
        (flags.clipChildren = true →
          p + origin win.windowRect - origin win.clientRect ∉ hidden children)}

def Near (n : Int) (p : Int × Int) : Prop :=
  (-(n * 536870912) ≤ p.1 ∧ p.1 < n * 536870912) ∧ -(n * 536870912) ≤ p.2 ∧ p.2 < n * 536870912

instance (n : Int) (p : Int × Int) : Decidable (Near n p) := inferInstanceAs (Decidable (_ ∧ _))

structure SmallRect (r : Rect) : Prop where
  start : Near 1 (r.left, r.top)
  stop : Near 1 (r.right, r.bottom)

/-- The rectangles lie within 29 bits and the region, if any, is valid. -/
structure Window.Fits (win : Window) : Prop where
  window : SmallRect win.windowRect
  visible : SmallRect win.visibleRect
  client : SmallRect win.clientRect
  region : ∀ r ∈ win.winRegion, WellFormed r

def Placed.Fits : Placed → Prop
  | desktop win => win.Fits
  | child win above parent => win.Fits ∧ (∀ w ∈ above, w.Fits) ∧ parent.Fits

structure Denotes (region : Region) (P : Set (Int × Int)) : Prop where
  wellFormed : WellFormed region
  points_eq : points region.rects = P

variable {region src : Region} {P Q : Set (Int × Int)} {win : Window} {d : Int × Int}

lemma Denotes.congr (h : Denotes region P) (heq : ∀ p, p ∈ P ↔ p ∈ Q) : Denotes region Q :=
  Set.ext heq ▸ h

lemma Denotes.rects_eq_nil (h : Denotes region P) : region.rects = [] ↔ P = ∅ := by
  rw [← h.points_eq]
  exact (points_eq_empty (validateRectangles_iff.mp h.wellFormed.valid)).symm

lemma Denotes.intersect (h : Denotes region P) (hsrc : Denotes src Q) :
    Denotes (intersectInto region src) (P ∩ Q) := by
  have hcomputed := @intersectRegion_computed Bool _ (fun l => if l then region else src)
    true false true h.wellFormed hsrc.wellFormed
  refine ⟨hcomputed.wellFormed, hcomputed.points_eq.trans ?_⟩
  exact congrArg₂ (· ∩ ·) h.points_eq hsrc.points_eq

lemma Denotes.subtract (h : Denotes region P) (hsrc : Denotes src Q) :
    Denotes (subtractFrom region src) (P \ Q) := by
  have hcomputed := @subtractRegion_computed Bool _ (fun l => if l then region else src)
    true false true h.wellFormed hsrc.wellFormed
  refine ⟨hcomputed.wellFormed, hcomputed.points_eq.trans ?_⟩
  exact congrArg₂ (· \ ·) h.points_eq hsrc.points_eq

lemma setRegionRect_denotes (rect : Rect) : Denotes (setRegionRect rect) {p | rect.Contains p} := by
  refine ⟨(setRegionRect_canonical rect).toWellFormed, Set.ext fun p => ?_⟩
  rw [setRegionRect]
  split
  · simp
  next hempty =>
  have hor : rect.left < rect.right → rect.bottom ≤ rect.top := by
    simpa [isRectEmpty] using hempty
  refine iff_of_false (by simp) fun hp => ?_
  simp only [Rect.Contains, Set.mem_ofPred_eq] at hp
  omega

lemma contains_intersectRect {r r' : Rect} {p : Int × Int} :
    (intersectRect r r').Contains p ↔ r.Contains p ∧ r'.Contains p := by
  simp only [intersectRect, Rect.Contains]
  omega

/-- Moving a region moves its points, when the result does not overflow. -/
lemma Denotes.offset (h : Denotes region P) (hnear : ∀ p ∈ P, Near 3 (p + d)) :
    Denotes (offsetRegion region d.1 d.2) {p | p - d ∈ P} := by
  obtain ⟨⟨hvalid, hbox⟩, rfl⟩ := h
  have hb := validateRectangles_iff.mp hvalid
  rw [offsetRegion]
  split
  · next hnil => exact ⟨⟨hvalid, hbox⟩, by simp [hnil]⟩
  next hne =>
  have hmoved : ∀ r ∈ region.rects, offsetRect r d.1 d.2 =
      ⟨r.left + d.1, r.top + d.2, r.right + d.1, r.bottom + d.2⟩ := by
    intro r hr
    have hwide := hb.wide r hr
    have hhigh := hb.high r hr
    have hstart := hnear (r.left, r.top) ⟨r, hr, le_rfl, hwide, le_rfl, hhigh⟩
    have hstop := hnear (r.right - 1, r.bottom - 1)
      ⟨r, hr, by omega, by omega, by omega, by omega⟩
    simp only [Near, Prod.fst_add, Prod.snd_add] at hstart hstop
    unfold offsetRect toInt32
    congr 1 <;> omega
  set t : Rect → Rect :=
    fun r => ⟨r.left + d.1, r.top + d.2, r.right + d.1, r.bottom + d.2⟩ with ht
  have hbanded : Banded (region.rects.map t) := by
    refine ⟨?_, ?_, ?_⟩
    · exact forall_mem_map.mpr fun r hr => Int.add_lt_add_right (hb.wide r hr) _
    · exact forall_mem_map.mpr fun r hr => Int.add_lt_add_right (hb.high r hr) _
    · refine pairwise_map.mpr (hb.ordered.imp fun hbefore => ?_)
      simp only [Before, ht] at hbefore ⊢
      omega
  have hext : offsetRect region.extents d.1 d.2 = t region.extents := by
    obtain ⟨-, ⟨r, hr, hleft⟩, ⟨r', hr', htop⟩, ⟨s, hs, hright⟩, ⟨s', hs', hbottom⟩⟩ :=
      (isBoundingBox_iff hb hne).mp hbox
    have h1 := congrArg Rect.left (hmoved r hr)
    have h2 := congrArg Rect.top (hmoved r' hr')
    have h3 := congrArg Rect.right (hmoved s hs)
    have h4 := congrArg Rect.bottom (hmoved s' hs')
    simp only [offsetRect, ht, ← hleft, ← htop, ← hright, ← hbottom] at h1 h2 h3 h4 ⊢
    rw [h1, h2, h3, h4]
  rw [map_congr_left hmoved, hext]
  refine ⟨⟨validateRectangles_iff.mpr hbanded, ?_⟩, ?_⟩
  · rw [isBoundingBox_iff hbanded (by simpa using hne)]
    simpa [ht] using (isBoundingBox_iff hb hne).mp hbox
  · ext p
    simp only [points, Set.mem_ofPred_eq, mem_map, exists_exists_and_eq_and, Rect.Contains,
      Prod.fst_sub, Prod.snd_sub, le_sub_iff_add_le, sub_lt_iff_lt_add]

lemma SmallRect.near {r : Rect} (h : SmallRect r) {p : Int × Int} (hp : r.Contains p) :
    Near 1 p := by
  obtain ⟨hstart, hstop⟩ := h
  simp only [Near, Rect.Contains] at hstart hstop hp ⊢
  omega

lemma Near.add_sub {p q : Int × Int} {n : Int} (hp : Near n p) (hq : Near 1 q) :
    Near (n + 1) (p + q) ∧ Near (n + 1) (p - q) := by
  simp only [Near, Prod.fst_add, Prod.snd_add, Prod.fst_sub, Prod.snd_sub] at hp hq ⊢
  omega

lemma Near.mono {p : Int × Int} {m n : Int} (hp : Near m p) (hle : m ≤ n) : Near n p := by
  simp only [Near] at hp ⊢
  omega

lemma intersectWindowRegion_denotes (hwin : win.Fits) (h : Denotes region P)
    (hP : ∀ p ∈ P, Near 1 p) : Denotes (intersectWindowRegion region win) (P ∩ win.shape) := by
  have hfits := hwin.region
  unfold intersectWindowRegion Window.shape
  cases hregion : win.winRegion with
  | none => simpa using h
  | some winRegion =>
    have ho : Near 1 (origin win.windowRect) := hwin.window.start
    have hmoved := Denotes.offset (d := -origin win.windowRect) h fun p hp =>
      sub_eq_add_neg p _ ▸ ((hP p hp).add_sub ho).2.mono (by decide)
    have hcut := hmoved.intersect ⟨hfits winRegion hregion, rfl⟩
    have hback := Denotes.offset (d := origin win.windowRect) hcut fun p hp => by
      have hmem : p - -origin win.windowRect ∈ P := hp.1
      rw [sub_neg_eq_add] at hmem
      exact (hP _ hmem).mono (by decide)
    exact hback.congr fun p => by simp

lemma clipChildren_denotes {children : List Window} (hfits : ∀ w ∈ children, w.Fits)
    (hd : Near 1 d) (h : Denotes region P) :
    Denotes (clipChildren region d children) (P \ {p | p - d ∈ hidden children}) := by
  induction children generalizing region P with
  | nil => simpa [clipChildren, hidden] using h
  | cons ptr children ih =>
    obtain ⟨hptr, hrest⟩ := forall_mem_cons.mp hfits
    have hhidden : ∀ p, p ∈ hidden (ptr :: children) ↔ (ptr.visible = true ∧
        ptr.transparent = false ∧ ptr.visibleRect.Contains p ∧ p ∈ ptr.shape) ∨
        p ∈ hidden children := fun p => exists_mem_cons_iff ..
    rw [clipChildren]
    split
    · next hskip =>
      refine (ih hrest h).congr fun p => ?_
      simp only [Set.mem_sdiff, Set.mem_ofPred_eq, hhidden]
      grind
    have htmp := intersectWindowRegion_denotes hptr (setRegionRect_denotes ptr.visibleRect)
      fun p hp => hptr.visible.near hp
    have hcut := h.subtract (Denotes.offset (d := d) htmp fun p hp =>
      ((hptr.visible.near hp.1).add_sub hd).1.mono (by decide))
    dsimp only
    split
    · next hnil =>
      refine hcut.congr fun p => ?_
      have hout : p ∉ P \ _ := Set.ext_iff.mp (hcut.rects_eq_nil.mp hnil) p |>.not.mpr id
      refine iff_of_false hout fun hp => hout ⟨hp.1, fun hin => hp.2 ?_⟩
      exact (hhidden _).mpr (.inl (by grind))
    · refine (ih hrest hcut).congr fun p => ?_
      simp only [Set.mem_sdiff, Set.mem_ofPred_eq, hhidden, Set.mem_inter_iff]
      grind

lemma clipIf_denotes {children : List Window} (hfits : ∀ w ∈ children, w.Fits) (hd : Near 1 d)
    (h : Denotes region P) (clip : Bool) :
    Denotes (if clip then clipChildren region d children else region)
      (P \ {p | clip = true ∧ p - d ∈ hidden children}) := by
  cases clip with
  | false => simpa using h
  | true => simpa using clipChildren_denotes hfits hd h

lemma setRegionClientRect_denotes (win : Window) :
    Denotes (setRegionClientRect win) win.clientBox :=
  (setRegionRect_denotes _).congr fun p => by
    simp only [Set.mem_ofPred_eq, contains_intersectRect, Window.clientBox, and_assoc]

lemma setRegionVisibleRect_denotes (win : Window) :
    Denotes (setRegionVisibleRect win) win.visibleBox :=
  (setRegionRect_denotes _).congr fun p => by
    simp only [Set.mem_ofPred_eq, contains_intersectRect, Window.visibleBox]

lemma Denotes.moveBack (h : Denotes region P) (hd : ∀ p ∈ P, Near 3 (p - d)) :
    Denotes (offsetRegion region (-d.1) (-d.2)) {p | p + d ∈ P} :=
  (Denotes.offset (d := -d) h fun p hp => sub_eq_add_neg p d ▸ hd p hp).congr fun p => by simp

lemma Denotes.stop_or {rest : Region} (h : Denotes region P) (hd : ∀ p ∈ P, Near 3 (p - d))
    (hrest : Denotes rest {p | p + d ∈ P ∩ Q}) :
    Denotes (if region.rects = [] then offsetRegion region (-d.1) (-d.2) else rest)
      {p | p + d ∈ P ∩ Q} := by
  split
  · next hnil =>
    refine (h.moveBack hd).congr fun p => ?_
    rw [h.rects_eq_nil.mp hnil]
    simp
  · exact hrest

lemma clipAncestors_denotes {place : Placed} (hplace : place.Fits) (h : Denotes region P)
    (hP : ∀ p ∈ P, Near 2 p) (hd : ∀ p ∈ P, Near 3 (p - d)) :
    Denotes (clipAncestors region d place) {p | p + d ∈ P ∩ place.unclipped} := by
  induction place generalizing region P d with
  | desktop win => exact (h.moveBack hd).congr fun p => by simp [Placed.unclipped]
  | child win above parent ih =>
    cases parent with
    | desktop up => exact (h.moveBack hd).congr fun p => by simp [Placed.unclipped]
    | child up ups top =>
      obtain ⟨-, habove, hparent⟩ := hplace
      have hup : up.Fits := hparent.1
      have hcut := clipIf_denotes (d := 0) habove (by simp [Near]) h win.clipSiblings
      have hmoved := Denotes.offset (d := origin up.clientRect) hcut fun p hp =>
        ((hP p hp.1).add_sub hup.client.start).1
      have hstep := hmoved.intersect (intersectWindowRegion_denotes hup
        (setRegionClientRect_denotes up) fun p hp => hup.client.near hp.2.1)
      rw [clipAncestors]
      generalize (if win.clipSiblings = true then _ else _ : Region) = clipped
        at hcut hmoved hstep ⊢
      dsimp only
      split
      · next hnil =>
        have hempty := Set.eq_empty_iff_forall_notMem.mp (hcut.rects_eq_nil.mp hnil.2)
        refine (hcut.moveBack fun p hp => hd p hp.1).congr fun p => iff_of_false (hempty _) ?_
        exact fun hp => hempty _ ⟨hp.1, fun hin => hp.2.1 hin.1 (by simpa using hin.2)⟩
      have hnear : ∀ p, p - origin up.clientRect ∈ P →
          Near 3 (p - (d + origin up.clientRect)) := by
        intro p hp
        rw [add_comm, ← sub_sub]
        exact hd _ hp
      have hrest := hstep.stop_or (fun p hp => hnear p hp.1.1) (ih hparent hstep
        (fun p hp => (hup.client.near hp.2.1.2.1).mono (by decide)) fun p hp => hnear p hp.1.1)
      refine hrest.congr fun p => ?_
      simp only [Placed.unclipped, Set.mem_inter_iff, Set.mem_ofPred_eq, Set.mem_sdiff,
        ← add_assoc, add_sub_cancel_right, not_and, sub_zero]
      tauto

lemma ownRegion_denotes {parent : Placed} (flags : DcxFlags) (hwin : win.Fits)
    (hparent : parent.Fits) :
    Denotes (ownRegion win parent flags) (ownArea win parent flags) ∧
      ∀ p ∈ ownArea win parent flags, Near 2 p := by
  have hvisible : ∀ p ∈ win.visibleBox, Near 1 p := fun p hp => hwin.visible.near hp.1
  have hclient : ∀ p ∈ win.clientBox, Near 1 p := fun p hp => hwin.client.near hp.2.1
  have hown : Denotes (ownRegion win (.desktop win) flags) (ownArea win (.desktop win) flags) ∧
      ∀ p ∈ ownArea win (.desktop win) flags, Near 2 p := by
    unfold ownRegion ownArea
    dsimp only
    split
    · exact ⟨intersectWindowRegion_denotes hwin (setRegionVisibleRect_denotes win) hvisible,
        fun p hp => (hvisible p hp.1).mono (by decide)⟩
    · exact ⟨intersectWindowRegion_denotes hwin (setRegionClientRect_denotes win) hclient,
        fun p hp => (hclient p hp.1).mono (by decide)⟩
  cases parent with
  | desktop up => exact hown
  | child up ups top =>
    cases hclip : flags.parentClip with
    | false => simpa [ownRegion, ownArea, hclip] using hown
    | true =>
      have hup : up.Fits := hparent.1
      have hnear : ∀ p ∈ up.clientBox, Near 2 (p - origin up.clientRect) := fun p hp =>
        ((hup.client.near hp.2.1).add_sub hup.client.start).2
      simp only [ownRegion, ownArea, hclip]
      refine ⟨(setRegionClientRect_denotes up).moveBack fun p hp => (hnear p hp).mono (by decide),
        fun p hp => ?_⟩
      have hp' := hnear _ hp
      rwa [add_sub_cancel_right] at hp'

lemma getVisibleRegion_denotes {place : Placed} {children : List Window} (flags : DcxFlags)
    (hplace : place.Fits) (hchildren : ∀ w ∈ children, w.Fits) :
    Denotes (getVisibleRegion place children flags) (visibleArea place children flags) := by
  unfold getVisibleRegion
  cases hvis : isVisible place with
  | false => exact ⟨empty_wellFormed, by simp [createEmptyRegion, visibleArea, hvis]⟩
  | true =>
    cases place with
    | desktop win => exact (setRegionRect_denotes _).congr fun p => by simp [visibleArea, hvis]
    | child win above parent =>
      have hwin : win.Fits := hplace.1
      obtain ⟨hown, hnear⟩ := ownRegion_denotes flags hwin hplace.2.2
      have hcut := clipIf_denotes hchildren hwin.client.start hown flags.clipChildren
      refine (clipAncestors_denotes (d := origin win.windowRect) hplace hcut
        (fun p hp => hnear p hp.1)
        fun p hp => ((hnear p hp.1).add_sub hwin.window.start).2).congr fun p => ?_
      simp only [visibleArea, hvis, Set.mem_inter_iff, Set.mem_sdiff, Set.mem_ofPred_eq, not_and,
        true_and, and_right_comm, origin]

/-- The visible region is valid and has exactly the points that should be visible. -/
theorem visible_region_exact {place : Placed} {children : List Window} (flags : DcxFlags)
    (hplace : place.Fits) (hchildren : ∀ w ∈ children, w.Fits) :
    validateRectangles (getVisibleRegion place children flags).rects = true ∧
      points (getVisibleRegion place children flags).rects = visibleArea place children flags :=
  have h := getVisibleRegion_denotes flags hplace hchildren
  ⟨h.wellFormed.valid, h.points_eq⟩

def plainWindow (rect : Rect) : Window := ⟨rect, rect, rect, rect, none, true, false, true, false⟩

lemma plainWindow_fits {rect : Rect} (hstart : Near 1 (rect.left, rect.top))
    (hstop : Near 1 (rect.right, rect.bottom)) : (plainWindow rect).Fits := by
  have hsmall : SmallRect rect := ⟨hstart, hstop⟩
  exact ⟨hsmall, hsmall, hsmall, by simp [plainWindow]⟩

def frame : Placed := .child (plainWindow ⟨0, 0, 8, 20⟩) [] (.desktop (plainWindow ⟨0, 0, 99, 99⟩))

def lower : Window := plainWindow ⟨0, 0, 10, 10⟩

def upper : Window := plainWindow ⟨5, 5, 15, 15⟩

def overlapped : Placed := .child lower [upper] frame

lemma overlapped_fits : overlapped.Fits :=
  ⟨plainWindow_fits (by decide) (by decide),
    forall_mem_singleton.mpr (plainWindow_fits (by decide) (by decide)),
    plainWindow_fits (by decide) (by decide), forall_mem_nil _,
    plainWindow_fits (by decide) (by decide)⟩

theorem visible_region_exact_overlapped :
    validateRectangles (getVisibleRegion overlapped [] ⟨true, false, false⟩).rects = true ∧
      points (getVisibleRegion overlapped [] ⟨true, false, false⟩).rects =
        visibleArea overlapped [] ⟨true, false, false⟩ :=
  visible_region_exact ⟨true, false, false⟩ overlapped_fits (forall_mem_nil _)

end WineForge.Windows
