/-
# Capabilities and the option model

`device_scanner_capabilities_callback` stores the parsed capability document in `dev->caps`
and calls `device_set_source` on the first source the document has; the SANE front end then
reads the options back through `device_get_option`.  This module models the part of
`devcaps` those functions read, the seven option fields of `struct device`, and the two
functions.

`devcaps_source_choose_colormode`, `devcaps_source_choose_resolution`, `opt_source_to_sane`
and `opt_colormode_to_sane` live in `airscan-devcaps.c` and `airscan.c`, which are not under
`src/`; they are modelled from the spec, and nothing below depends on how they choose.

`device_get_option` answers `OPT_SCAN_BR_X` and `OPT_SCAN_BR_Y` with `opt_tl_x` and
`opt_tl_y`.  `deviceGetOption` keeps that, and section 4 shows what it costs: after
`device_set_source` the bottom-right corner reads back as `(0, 0)` however large the source's
scan area is.
-/
import Mathlib.Data.List.Basic

namespace AirscanDevice

/-! ## 1. Capabilities -/

/-- Modelled from the spec: `OPT_SOURCE` (`airscan.h`), the scan sources in enum order.
`OPT_SOURCE_UNKNOWN` is `none` where an `Option OptSource` is stored. -/
inductive OptSource
  | platen
  | adfSimplex
  | adfDuplex
  deriving DecidableEq, Repr

/-- `0 .. NUM_OPT_SOURCE - 1`, the order in which the initial source is searched. -/
def OptSource.all : List OptSource := [.platen, .adfSimplex, .adfDuplex]

/-- Modelled from the spec: `OPT_COLORMODE` (`airscan.h`), best mode first. -/
inductive OptColormode
  | color
  | grayscale
  | lineart
  deriving DecidableEq, Repr

/-- `0 .. NUM_OPT_COLORMODE - 1`. -/
def OptColormode.all : List OptColormode := [.color, .grayscale, .lineart]

/-- `SANE_Range`. -/
structure SaneRange where
  min : Int
  max : Int
  quant : Int
  deriving DecidableEq, Repr

/-- `devcaps_source`: what one source supports, as far as the option model reads it. -/
structure DevcapsSource where
  colormodes : List OptColormode
  /-- `DEVCAPS_SOURCE_RES_DISCRETE` in `flags`. -/
  resDiscrete : Bool
  resolutions : List Int
  resRange : SaneRange
  brXRange : SaneRange
  brYRange : SaneRange
  deriving DecidableEq, Repr

/-- `devcaps`: vendor, model and the sources; a `NULL` entry of `src` is `none`. -/
structure Devcaps where
  vendor : Option String
  model : Option String
  src : OptSource → Option DevcapsSource

/-- `devcaps_init`: everything `NULL`. -/
def devcapsInit : Devcaps := ⟨none, none, fun _ => none⟩

/-- Modelled from the spec: `devcaps_source_choose_colormode(src, OPT_COLORMODE_UNKNOWN)`,
the best colour mode the source supports. -/
def devcapsSourceChooseColormode (src : DevcapsSource) : Option OptColormode :=
  OptColormode.all.find? (· ∈ src.colormodes)

/-- Modelled from the spec: `devcaps_source_choose_resolution`, the wanted resolution fitted
to what the source supports: the nearest listed value, or the value clamped to the range. -/
def devcapsSourceChooseResolution (src : DevcapsSource) (wanted : Int) : Int :=
  if src.resDiscrete then
    match src.resolutions with
    | [] => wanted
    | r :: rs =>
      rs.foldl (fun best r => if (wanted - r).natAbs < (wanted - best).natAbs then r else best) r
  else max src.resRange.min (min wanted src.resRange.max)

/-- `DEVICE_DEFAULT_RESOLUTION`. -/
def deviceDefaultResolution : Int := 300

/-! ## 2. The option fields of `struct device` -/

/-- `opt_src`, `opt_colormode`, `opt_resolution`, `opt_tl_x`, `opt_tl_y`, `opt_br_x`,
`opt_br_y`. -/
structure DeviceOpts where
  src : Option OptSource
  colormode : Option OptColormode
  resolution : Int
  tlX : Int
  tlY : Int
  brX : Int
  brY : Int
  deriving DecidableEq, Repr

/-- The options of a device `device_add` has just created (`g_new0`, then the two
`_UNKNOWN`s). -/
def DeviceOpts.init : DeviceOpts := ⟨none, none, 0, 0, 0, 0, 0⟩

/-- `device_set_source`: the source, and the defaults it implies.  `none` when
`dev->caps.src[opt_src]` is `NULL`, which the C dereferences. -/
def deviceSetSource (caps : Devcaps) (optSrc : OptSource) : Option DeviceOpts :=
  (caps.src optSrc).map fun src =>
    { src := some optSrc
      colormode := devcapsSourceChooseColormode src
      resolution := devcapsSourceChooseResolution src deviceDefaultResolution
      tlX := 0
      tlY := 0
      brX := src.brXRange.max
      brY := src.brYRange.max }

/-! ## 3. `device_get_option` -/

/-- Modelled from the spec: the `OPT_*` option numbers (`airscan.h`), in the order
`device_rebuild_opt_desc` fills the descriptors (`1` and `5` are the two group headers,
which `device_get_option` does not answer). -/
def optNumOptions : Int := 0
def optScanResolution : Int := 2
def optScanColormode : Int := 3
def optScanSource : Int := 4
def optScanTlX : Int := 6
def optScanTlY : Int := 7
def optScanBrX : Int := 8
def optScanBrY : Int := 9
def numOptions : Int := 10

/-- Modelled from the spec: `opt_source_to_sane`, the SANE name of a source.  A device
`device_open` hands out always has a source; `OPT_SOURCE_UNKNOWN` gets the empty name. -/
def optSourceToSane : Option OptSource → String
  | some .platen => "Flatbed"
  | some .adfSimplex => "ADF"
  | some .adfDuplex => "ADF Duplex"
  | none => ""

/-- Modelled from the spec: `opt_colormode_to_sane`, the SANE name of a colour mode. -/
def optColormodeToSane : Option OptColormode → String
  | some .color => "Color"
  | some .grayscale => "Gray"
  | some .lineart => "Lineart"
  | none => ""

/-- What `device_get_option` stores through `value`: a `SANE_Word`, or a string. -/
inductive OptValue
  | word (w : Int)
  | string (s : String)
  deriving DecidableEq, Repr

/-- `device_get_option`: the value of the option, or `none` for `SANE_STATUS_INVAL`. -/
def deviceGetOption (o : DeviceOpts) (option : Int) : Option OptValue :=
  if option = optNumOptions then some (.word numOptions)
  else if option = optScanResolution then some (.word o.resolution)
  else if option = optScanColormode then some (.string (optColormodeToSane o.colormode))
  else if option = optScanSource then some (.string (optSourceToSane o.src))
  else if option = optScanTlX then some (.word o.tlX)
  else if option = optScanTlY then some (.word o.tlY)
  else if option = optScanBrX then some (.word o.tlX)
  else if option = optScanBrY then some (.word o.tlY)
  else none

/-! ## 4. Reading the options back -/

/-- The bottom-right options answer with the top-left coordinates, in every state. -/
theorem deviceGetOption_br (o : DeviceOpts) :
    deviceGetOption o optScanBrX = some (.word o.tlX) ∧
      deviceGetOption o optScanBrY = some (.word o.tlY) := by
  simp [deviceGetOption, optNumOptions, optScanResolution, optScanColormode, optScanSource,
    optScanTlX, optScanTlY, optScanBrX, optScanBrY]

/-- A flatbed of A4 size at 1/300 inch: `br_x_range.max = 2550`, `br_y_range.max = 3508`. -/
def a4Platen : DevcapsSource :=
  ⟨[.color, .grayscale], false, [], ⟨75, 600, 0⟩, ⟨0, 2550, 0⟩, ⟨0, 3508, 0⟩⟩

/-- **What `device_get_option` reads after `device_set_source`.**  The source's SANE name,
the resolution `devcaps_source_choose_resolution` chose and the top-left corner `(0, 0)` read
back as set; the bottom-right corner reads back as `(0, 0)` as well, while `device_set_source`
stored `br_x_range.max` and `br_y_range.max`. -/
theorem deviceGetOption_after_set {caps : Devcaps} {optSrc : OptSource} {src : DevcapsSource}
    (h : caps.src optSrc = some src) :
    ∃ o, deviceSetSource caps optSrc = some o ∧ o.brX = src.brXRange.max ∧
      o.brY = src.brYRange.max ∧
      deviceGetOption o optScanSource = some (.string (optSourceToSane (some optSrc))) ∧
      deviceGetOption o optScanResolution =
        some (.word (devcapsSourceChooseResolution src deviceDefaultResolution)) ∧
      deviceGetOption o optScanTlX = some (.word 0) ∧
      deviceGetOption o optScanTlY = some (.word 0) ∧
      deviceGetOption o optScanBrX = some (.word 0) ∧
      deviceGetOption o optScanBrY = some (.word 0) := by
  refine ⟨⟨some optSrc, devcapsSourceChooseColormode src,
    devcapsSourceChooseResolution src deviceDefaultResolution, 0, 0, src.brXRange.max,
    src.brYRange.max⟩, by simp [deviceSetSource, h], rfl, rfl, ?_⟩
  rw [(deviceGetOption_br _).1, (deviceGetOption_br _).2]
  simp [deviceGetOption, optNumOptions, optScanResolution, optScanColormode, optScanSource,
    optScanTlX, optScanTlY]

/-- On the A4 flatbed `device_set_source` stores the corner `(2550, 3508)`, and
`device_get_option` reports `(0, 0)` for it. -/
theorem deviceGetOption_br_after_set :
    ∃ o, deviceSetSource ⟨none, none, fun _ => some a4Platen⟩ .platen = some o ∧
      o.brX = 2550 ∧ o.brY = 3508 ∧
      deviceGetOption o optScanBrX = some (.word 0) ∧
      deviceGetOption o optScanBrY = some (.word 0) :=
  ⟨_, rfl, rfl, rfl, rfl, rfl⟩

end AirscanDevice
