import Mathlib.Algebra.Order.Field.Rat
import Mathlib.Data.List.Basic
import Mathlib.Tactic.LinearCombination
import Mathlib.Tactic.Linarith
import Mathlib.Tactic.NormNum
import Mathlib.Tactic.Ring
import StreamCharts.Chart.Figure
import StreamCharts.Chart.Layout

/-!
# Plots stacked in a window

Headings and plots are put one below the other, each behind a space (`stack_pairwise`), so that the headings stand at equal
distances (`headings_eq`). A plot gets its share of the height, less what a heading and two spaces are thought to take
(`plotHeight_eq_max`). Two errors are made: a heading takes more than the height of its text, and no space follows the last plot.
The first one grows with the number of plots, the second one stays, and together they decide what is left below the last plot
(`bottom_arrangement`). For three plots the second one is the larger one, so the plots fit in the window and all but fill it; and
the window has to be higher than 222 for all three headings to begin inside it (`plots_stacked_in_window`).
-/

namespace StreamCharts.Layout

/-! ## Widgets one below the other -/

section Stack

variable {ws : List Widget} {top : ℚ} {placed : Placed}

/-- All widgets are placed, in their order. -/
theorem map_widget_stack (top : ℚ) (ws : List Widget) : (stack top ws).map Placed.widget = ws := by
  induction ws generalizing top with
  | nil => rfl
  | cons w ws ih => rw [stack, List.map_cons, ih]

/-- No widget is placed above the first. -/
theorem le_top_of_mem_stack (hws : ∀ w ∈ ws, 0 ≤ w.height) (hmem : placed ∈ stack top ws) : top ≤ placed.top := by
  induction ws generalizing top with
  | nil => cases hmem
  | cons w ws ih =>
    obtain ⟨hw, hws⟩ := List.forall_mem_cons.mp hws
    rcases List.mem_cons.mp hmem with rfl | hmem
    · exact le_rfl
    · have hbelow : top + w.height + spacing ≤ placed.top := ih hws hmem
      have hspacing : (0 : ℚ) ≤ spacing := by decide
      linarith

/-- A widget is placed below the end of each one before it. -/
theorem stack_pairwise (top : ℚ) (hws : ∀ w ∈ ws, 0 ≤ w.height) :
    (stack top ws).Pairwise fun above below => above.bottom < below.top := by
  induction ws generalizing top with
  | nil => exact .nil
  | cons w ws ih =>
    obtain ⟨-, hrest⟩ := List.forall_mem_cons.mp hws
    refine .cons (fun below hbelow => ?_) (ih _ hrest)
    calc top + w.height < top + w.height + spacing := lt_add_of_pos_right _ (by decide)
      _ ≤ below.top := le_top_of_mem_stack hrest hbelow

end Stack

/-! ## Headings and plots -/

section Charts

variable {titles : List String} {plot height : ℚ}

/-- The distance from a heading to the next. -/
def pitch (plot : ℚ) : ℚ :=
  headingHeight + spacing + plot + spacing

/-- The distance from the top of the window to the top of a heading; headings are counted from 0. -/
def headingTop (count : ℕ) (height : ℚ) (index : ℕ) : ℚ :=
  margin + index * pitch (plotHeight count height)

/-- The heading and the plot of a chart are placed before those of the others. -/
theorem stack_widgets_cons (top : ℚ) (title : String) (titles : List String) (plot : ℚ) :
    stack top (widgets (title :: titles) plot) =
      ⟨.heading title, top⟩ :: ⟨.plot plot, top + headingHeight + spacing⟩ :: stack (top + pitch plot) (widgets titles plot) := by
  have hnext : top + headingHeight + spacing + plot + spacing = top + pitch plot := by
    rw [pitch]
    ring
  rw [← hnext]
  rfl

/-- Headings and plots have a height. -/
theorem height_nonneg_of_mem_widgets (hplot : 0 ≤ plot) : ∀ w ∈ widgets titles plot, 0 ≤ w.height := by
  intro w hw
  obtain ⟨title, -, hw⟩ := List.mem_flatMap.mp hw
  rcases List.mem_pair.mp hw with rfl | rfl
  · exact (by decide : (0 : ℚ) ≤ headingHeight)
  · exact hplot

/-- Headings stand at equal distances. -/
theorem filterMap_heading?_stack (first : ℚ) (index : ℕ) (titles : List String) (plot : ℚ) :
    (stack (first + index * pitch plot) (widgets titles plot)).filterMap Placed.heading? =
      (titles.zipIdx index).map fun (title, i) => (title, first + i * pitch plot) := by
  -- The top of the stack is written by the index of its first heading, so that both move on together.
  induction titles generalizing index with
  | nil => rfl
  | cons title titles ih =>
    have hnext : first + index * pitch plot + pitch plot = first + (index + 1 : ℕ) * pitch plot := by
      push_cast
      ring
    rw [stack_widgets_cons, hnext, List.zipIdx_cons, List.map_cons, ← ih]
    rfl

/-- The headings of a window and where they stand. -/
theorem headings_eq (titles : List String) (height : ℚ) :
    headings titles height = titles.zipIdx.map fun (title, index) => (title, headingTop titles.length height index) := by
  have hstack := filterMap_heading?_stack margin 0 titles (plotHeight titles.length height)
  rwa [Nat.cast_zero, zero_mul, add_zero] at hstack

/-- Every chart has its heading. -/
theorem map_fst_headings (titles : List String) (height : ℚ) : (headings titles height).map Prod.fst = titles := by
  rw [headings_eq, List.map_map]
  exact List.zipIdx_map_fst 0 titles

/-- The last plot ends where the next heading would stand, but for a space. -/
theorem getLast?_stack_widgets (top plot : ℚ) (hne : titles ≠ []) :
    ∃ last, (stack top (widgets titles plot)).getLast? = some last ∧ last.widget = .plot plot ∧
      last.bottom = top + titles.length * pitch plot - spacing := by
  induction titles generalizing top with
  | nil => exact absurd rfl hne
  | cons title titles ih =>
    rw [stack_widgets_cons]
    cases titles with
    | nil =>
      refine ⟨⟨.plot plot, top + headingHeight + spacing⟩, rfl, rfl, ?_⟩
      simp only [Placed.bottom, Widget.height, pitch, List.length_singleton, Nat.cast_one]
      ring
    | cons next titles =>
      obtain ⟨last, hlast, hwidget, hbottom⟩ := ih (top + pitch plot) (List.cons_ne_nil _ _)
      refine ⟨last, ?_, hwidget, ?_⟩
      · rw [List.getLast?_cons, List.getLast?_cons, hlast]
        rfl
      · have hlength : ((title :: next :: titles).length : ℚ) = (next :: titles).length + 1 := Nat.cast_succ _
        rw [hbottom, hlength]
        ring

/-! ## The share of a plot -/

/-- What a plot gets if the height of the window is shared equally. -/
def share (count : ℕ) (height : ℚ) : ℚ :=
  (height - 2 * margin - count * (headingText + 2 * spacing)) / count

/-- A plot has the height of its share, or the least height. -/
theorem plotHeight_eq_max (count : ℕ) (height : ℚ) : plotHeight count height = max leastPlotHeight (share count height) := by
  rcases lt_or_ge (share count height) leastPlotHeight with hsmall | hlarge
  · rw [max_eq_left hsmall.le]
    exact if_pos hsmall
  · rw [max_eq_right hlarge]
    exact if_neg hlarge.not_gt

/-- No plot is lower than the least height. -/
theorem leastPlotHeight_le (count : ℕ) (height : ℚ) : leastPlotHeight ≤ plotHeight count height := by
  rw [plotHeight_eq_max]
  exact le_max_left _ _

/-- A plot has a height. -/
theorem plotHeight_nonneg (count : ℕ) (height : ℚ) : 0 ≤ plotHeight count height :=
  (by decide : (0 : ℚ) ≤ leastPlotHeight).trans (leastPlotHeight_le count height)

/-- If the shares are not too small, what is left below the last plot is a space, less the part by which the headings are higher
than their text. -/
theorem bottom_arrangement (hne : titles ≠ []) (hshare : leastPlotHeight ≤ share titles.length height) :
    ∃ last, (arrangement titles height).getLast? = some last ∧ last.widget = .plot (share titles.length height) ∧
      last.bottom = height - margin - (spacing - titles.length * (headingHeight - headingText)) := by
  have hplot : plotHeight titles.length height = share titles.length height := by
    rw [plotHeight_eq_max, max_eq_right hshare]
  obtain ⟨last, hlast, hwidget, hbottom⟩ := getLast?_stack_widgets margin (plotHeight titles.length height) hne
  rw [hplot] at hwidget hbottom
  refine ⟨last, hlast, hwidget, ?_⟩
  have hcount : (titles.length : ℚ) ≠ 0 := Nat.cast_ne_zero.mpr (mt List.length_eq_zero_iff.mp hne)
  have hshares : titles.length * share titles.length height =
      height - 2 * margin - titles.length * (headingText + 2 * spacing) := mul_div_cancel₀ _ hcount
  rw [hbottom, pitch]
  linear_combination hshares

/-! ## Headings inside the window -/

/-- A heading stands above those behind it. -/
theorem headingTop_mono (count : ℕ) (height : ℚ) : Monotone (headingTop count height) := by
  intro i j hij
  have hpitch : 0 ≤ pitch (plotHeight count height) := by
    have hconstants : (0 : ℚ) ≤ headingHeight ∧ (0 : ℚ) ≤ spacing := by decide
    have hplot := plotHeight_nonneg count height
    unfold pitch
    linarith
  have hindex : (i : ℚ) ≤ j := Nat.cast_le.mpr hij
  exact add_le_add_right (mul_le_mul_of_nonneg_right hindex hpitch) margin

/-- A heading of the window stands at its index. -/
theorem mem_headings_iff {heading : String × ℚ} :
    heading ∈ headings titles height ↔
      ∃ index, titles[index]? = some heading.1 ∧ headingTop titles.length height index = heading.2 := by
  rw [headings_eq, List.mem_map]
  constructor
  · rintro ⟨⟨title, index⟩, hmem, rfl⟩
    exact ⟨index, List.mk_mem_zipIdx_iff_getElem?.mp hmem, rfl⟩
  · rintro ⟨index, htitle, htop⟩
    exact ⟨(heading.1, index), List.mk_mem_zipIdx_iff_getElem?.mpr htitle, Prod.ext rfl htop⟩

/-- No heading begins in the margin. -/
theorem margin_le_of_mem_headings {heading : String × ℚ} (hmem : heading ∈ headings titles height) : margin ≤ heading.2 := by
  obtain ⟨index, -, htop⟩ := mem_headings_iff.mp hmem
  calc margin = headingTop titles.length height 0 := by simp [headingTop]
    _ ≤ headingTop titles.length height index := headingTop_mono _ _ index.zero_le
    _ = heading.2 := htop

/-- All headings are above a line if the last one is. -/
theorem forall_headings_iff (hne : titles ≠ []) {above : ℚ → Prop} (habove : ∀ x y, x ≤ y → above y → above x) :
    (∀ heading ∈ headings titles height, above heading.2) ↔ above (headingTop titles.length height (titles.length - 1)) := by
  have hcount : 0 < titles.length := List.length_pos_iff.mpr hne
  constructor
  · intro hall
    have hlast : titles[titles.length - 1]? = some (titles.getLast hne) := by
      rw [← List.getLast?_eq_getElem?, List.getLast?_eq_some_getLast hne]
    exact hall (_, _) (mem_headings_iff.mpr ⟨_, hlast, rfl⟩)
  · intro hlast heading hmem
    obtain ⟨index, htitle, htop⟩ := mem_headings_iff.mp hmem
    have hindex : index < titles.length := (List.getElem?_eq_some_iff.mp htitle).1
    exact htop ▸ habove _ _ (headingTop_mono _ _ (by omega)) hlast

/-- Headings are in the order of where they stand. -/
theorem headings_pairwise (titles : List String) (height : ℚ) :
    (headings titles height).Pairwise fun heading later => heading.2 ≤ later.2 := by
  have hindices : (titles.zipIdx.map Prod.snd).Pairwise (· ≤ ·) := by
    rw [List.zipIdx_map_snd]
    exact List.pairwise_le_range'
  rw [headings_eq, List.pairwise_map]
  exact (List.pairwise_map.mp hindices).imp fun hle => headingTop_mono _ _ hle

/-- What is kept of a list is a prefix of it if whatever stands before something that is kept is kept as well. -/
theorem filter_prefix_of_pairwise {α : Type} {keep : α → Bool} {xs : List α}
    (h : xs.Pairwise fun x y => keep y = true → keep x = true) : xs.filter keep <+: xs := by
  induction xs with
  | nil => exact List.prefix_rfl
  | cons x xs ih =>
    obtain ⟨hx, hxs⟩ := List.pairwise_cons.mp h
    by_cases hkeep : keep x = true
    · rw [List.filter_cons_of_pos hkeep]
      exact (List.prefix_cons_inj x).mpr (ih hxs)
    · have hnone : xs.filter keep = [] := List.filter_eq_nil_iff.mpr fun y hy hlater => hkeep (hx y hy hlater)
      rw [List.filter_cons_of_neg hkeep, hnone]
      exact List.nil_prefix

/-- The headings above a line come before the others. -/
theorem filter_headings_prefix {above : ℚ → Prop} [DecidablePred above] (habove : ∀ x y, x ≤ y → above y → above x) :
    (headings titles height).filter (fun heading => above heading.2) <+: headings titles height := by
  refine filter_prefix_of_pairwise ((headings_pairwise titles height).imp fun hle hlater => ?_)
  exact decide_eq_true (habove _ _ hle (of_decide_eq_true hlater))

/-! ## Headings that are listed as visible -/

/-- The titles of the visible headings are those of the headings that begin inside the window or on its edge. -/
theorem map_fst_visibleHeadings (titles : List String) (height : ℚ) :
    (visibleHeadings titles height).map Prod.fst =
      ((headings titles height).filter fun heading => heading.2 ≤ height).map Prod.fst := by
  unfold visibleHeadings
  induction headings titles height with
  | nil => rfl
  | cons heading rest ih =>
    by_cases hvisible : heading.2 ≤ height
    · simp [hvisible, ih]
    · simp [hvisible, ih]

/-- The visible headings are the first ones. -/
theorem visibleHeadings_prefix (titles : List String) (height : ℚ) :
    (visibleHeadings titles height).map Prod.fst <+: titles := by
  have hfirst : ((headings titles height).filter fun heading => heading.2 ≤ height) <+: headings titles height :=
    filter_headings_prefix fun x y hxy hy => hxy.trans hy
  have htitles := hfirst.map Prod.fst
  rwa [map_fst_headings, ← map_fst_visibleHeadings] at htitles

/-- All headings are visible if none begins below the edge. -/
theorem visibleHeadings_eq_iff (titles : List String) (height : ℚ) :
    (visibleHeadings titles height).map Prod.fst = titles ↔ ∀ heading ∈ headings titles height, heading.2 ≤ height := by
  rw [map_fst_visibleHeadings]
  constructor
  · intro hall heading hmem
    have hlength : ((headings titles height).filter fun heading => heading.2 ≤ height).length =
        (headings titles height).length := by
      rw [← List.length_map (f := Prod.fst), hall, ← List.length_map (f := Prod.fst), map_fst_headings]
    exact of_decide_eq_true (List.length_filter_eq_length_iff.mp hlength heading hmem)
  · intro hall
    rw [List.filter_eq_self.mpr fun heading hmem => decide_eq_true (hall heading hmem), map_fst_headings]

end Charts

/-! ## Three plots -/

/-- The last of three headings: its place does not depend on the height of the window as long as the plots have the least height. -/
theorem headingTop_of_three (height : ℚ) : headingTop 3 height 2 = max 222 ((2 * height - 49 / 8) / 3) := by
  have hleast : (222 : ℚ) = 2 * leastPlotHeight + 62 := by norm_num [leastPlotHeight]
  have hshare : (2 * height - 49 / 8) / 3 = 2 * share 3 height + 62 := by
    simp only [share, margin, headingText, spacing]
    push_cast
    ring
  have hmax : headingTop 3 height 2 = 2 * max leastPlotHeight (share 3 height) + 62 := by
    simp only [headingTop, pitch, plotHeight_eq_max, margin, headingHeight, spacing]
    push_cast
    ring
  rw [hmax, hleast, hshare, max_add_add_right, mul_max_of_nonneg _ _ (by norm_num)]

/-- The last of three headings begins above the lower edge of a window that is higher than 222. -/
theorem headingTop_of_three_lt_iff (height : ℚ) : headingTop 3 height 2 < height ↔ 222 < height := by
  rw [headingTop_of_three, max_lt_iff, and_iff_left_iff_imp]
  intro hheight
  linarith

/-- It begins on the edge of a window that is 222 high, and below that of a lower one. -/
theorem headingTop_of_three_le_iff (height : ℚ) : headingTop 3 height 2 ≤ height ↔ 222 ≤ height := by
  rw [headingTop_of_three, max_le_iff, and_iff_left_iff_imp]
  intro hheight
  linarith

/-- The window of a scenario, whatever its height. It holds three headings, each with its plot below, and the plots have one common
height of at least 80. Each of the six begins below the end of every one before it. If the equal share of the plots is at least 80,
the last plot has this height and ends above the margin of 8, and what is left between the two is less than a space of 3. No heading
begins in the upper margin; all three begin inside the window if and only if it is higher than 222, and those that do are the first
ones. The headings listed as visible are the first ones, too; a heading on the lower edge is among them, though nothing is seen of
it. -/
theorem plots_stacked_in_window (logs : ScenarioLogs) (height : ℚ) :
    let titles := (figure logs).map (·.title)
    let placed := arrangement titles height
    let visible := (visibleHeadings titles height).map Prod.fst
    (∃ a b c plot, titles = [a, b, c] ∧
      placed.map (·.widget) = [.heading a, .plot plot, .heading b, .plot plot, .heading c, .plot plot] ∧
      plot = max 80 (share 3 height) ∧ 80 ≤ plot) ∧
    placed.Pairwise (fun above below => above.bottom < below.top) ∧
    (80 ≤ share 3 height →
      ∃ last, placed.getLast? = some last ∧ last.widget = .plot (share 3 height) ∧
        last.bottom ≤ height - 8 ∧ height - 8 < last.bottom + 3) ∧
    ((∀ heading ∈ headings titles height, 8 ≤ heading.2) ∧
      ((∀ heading ∈ headings titles height, heading.2 < height) ↔ 222 < height) ∧
      (headings titles height).filter (fun heading => heading.2 < height) <+: headings titles height) ∧
    visible <+: titles ∧ (visible = titles ↔ 222 ≤ height) := by
  intro titles placed visible
  have hcount : titles.length = 3 := rfl
  have hne : titles ≠ [] := List.cons_ne_nil _ _
  refine ⟨⟨_, _, _, plotHeight 3 height, rfl, ?_, plotHeight_eq_max 3 height, leastPlotHeight_le 3 height⟩, ?_, ?_, ⟨?_, ?_, ?_⟩,
    visibleHeadings_prefix titles height, ?_⟩
  · exact map_widget_stack margin (widgets titles (plotHeight 3 height))
  · exact stack_pairwise margin (height_nonneg_of_mem_widgets (plotHeight_nonneg 3 height))
  · intro hshare
    obtain ⟨last, hlast, hwidget, hbottom⟩ := bottom_arrangement hne hshare
    -- `3 - 3 * (21 - 20.6875)`: the space that no heading follows outweighs the three headings that are too high.
    have hleft : last.bottom = height - 8 - 33 / 16 := by
      rw [hbottom, hcount]
      norm_num [margin, spacing, headingHeight, headingText]
    exact ⟨last, hlast, hwidget, by linarith, by linarith⟩
  · exact fun heading hmem => margin_le_of_mem_headings hmem
  · rw [forall_headings_iff hne fun x y hxy hy => hxy.trans_lt hy]
    exact headingTop_of_three_lt_iff height
  · exact filter_headings_prefix fun x y hxy hy => hxy.trans_lt hy
  · rw [visibleHeadings_eq_iff, forall_headings_iff hne fun x y hxy hy => hxy.trans hy]
    exact headingTop_of_three_le_iff height

/-- A window that is 900 high is filled but for its margins and less than a space; in one that is 222 high the third heading is on
the edge, visible but not inside. -/
theorem plots_of_high_and_low_window :
    let titles := (figure ⟨⟨[]⟩, ⟨[]⟩, ⟨[]⟩⟩).map (·.title)
    80 ≤ share 3 900 ∧
      (∃ last, (arrangement titles 900).getLast? = some last ∧ last.widget = .plot (share 3 900) ∧
        last.bottom ≤ 900 - 8 ∧ 900 - 8 < last.bottom + 3) ∧
      (visibleHeadings titles 222).map Prod.fst = titles ∧ ¬∀ heading ∈ headings titles 222, heading.2 < 222 := by
  intro titles
  have hshare : 80 ≤ share 3 900 := by norm_num [share, margin, headingText, spacing]
  obtain ⟨-, -, hfilled, -⟩ := plots_stacked_in_window ⟨⟨[]⟩, ⟨[]⟩, ⟨[]⟩⟩ 900
  obtain ⟨-, -, -, ⟨-, hinside, -⟩, -, hvisible⟩ := plots_stacked_in_window ⟨⟨[]⟩, ⟨[]⟩, ⟨[]⟩⟩ 222
  exact ⟨hshare, hfilled hshare, hvisible.mpr le_rfl, mt hinside.mp (lt_irrefl 222)⟩

end StreamCharts.Layout
