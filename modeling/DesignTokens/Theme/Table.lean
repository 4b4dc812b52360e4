import DesignTokens.Number.Decimal
import DesignTokens.Theme.Field

/-! The table of fields: each leaf of a theme but its name, and where its value comes from. -/

namespace DesignTokens.Theme.Table

def decimal (value : Decimal) : Binary64 := value.toBinary64 false

def colors : List Field := [
  .text "semantic.color.surface" "Semantic.Colour.Surface",
  .text "semantic.color.onSurface" "Semantic.Colour.On-Surface",
  .text "semantic.color.onSurfaceMuted" "Semantic.Colour.On-Surface-Muted",
  .text "semantic.color.surfaceContainer" "Semantic.Colour.Surface-Container",
  .text "semantic.color.primary" "Semantic.Colour.Primary",
  .text "semantic.color.onPrimary" "Semantic.Colour.On-Primary",
  .text "semantic.color.primaryHover" "Semantic.Colour.Primary-Hover",
  .text "semantic.color.primaryPressed" "Semantic.Colour.Primary-Pressed",
  .text "semantic.color.secondary" "Semantic.Colour.Secondary",
  .text "semantic.color.onSecondary" "Semantic.Colour.On-Secondary",
  .text "semantic.color.success" "Semantic.Colour.Success",
  .text "semantic.color.onSuccess" "Semantic.Colour.On-Success",
  .text "semantic.color.error" "Semantic.Colour.Error",
  .text "semantic.color.onError" "Semantic.Colour.On-Error",
  .text "semantic.color.warning" "Semantic.Colour.Warning",
  .text "semantic.color.onWarning" "Semantic.Colour.On-Warning",
  .text "semantic.color.border" "Semantic.Colour.Border",
  .text "semantic.color.borderSubtle" "Semantic.Colour.Border-Subtle",
  .text "semantic.color.disabledContainer" "Semantic.Colour.Disabled-Container",
  .text "semantic.color.onDisabled" "Semantic.Colour.On-Disabled",
  .text "semantic.color.primaryContainer" "Semantic.Colour.Primary-Container",
  .text "semantic.color.onPrimaryContainer" "Semantic.Colour.On-Primary-Container",
  .text "semantic.color.secondaryContainer" "Semantic.Colour.Secondary-Container",
  .text "semantic.color.onSecondaryContainer" "Semantic.Colour.On-Secondary-Container",
  .text "semantic.color.errorContainer" "Semantic.Colour.Error-Container",
  .text "semantic.color.onErrorContainer" "Semantic.Colour.On-Error-Container",
  .text "semantic.color.successContainer" "Semantic.Colour.Success-Container",
  .text "semantic.color.onSuccessContainer" "Semantic.Colour.On-Success-Container",
  .text "semantic.color.warningContainer" "Semantic.Colour.Warning-Container",
  .text "semantic.color.onWarningContainer" "Semantic.Colour.On-Warning-Container",
  .text "semantic.color.overlay" "Primitive.Colour.Black"]

def typography : List Field := [
  .text "semantic.fontFamily.brand" "Semantic.Font family.Font-Brand",
  .text "semantic.fontFamily.interface" "Semantic.Font family.Font-Interface",
  .text "semantic.fontFamily.data" "Semantic.Font family.Font-Data",
  .number "semantic.fontSize.display" "Semantic.Text size.Text-size-display",
  .number "semantic.fontSize.h1" "Semantic.Text size.Text-size-h1",
  .number "semantic.fontSize.h2" "Semantic.Text size.Text-size-h2",
  .number "semantic.fontSize.h3" "Semantic.Text size.Text-size-h3",
  .number "semantic.fontSize.body" "Semantic.Text size.Text-size-body",
  .number "semantic.fontSize.small" "Semantic.Text size.Text-size-small",
  .number "semantic.fontSize.button" "Semantic.Text size.Text-size-button",
  .number "semantic.fontWeight.heading" "Semantic.Font weight.Weight-heading",
  .number "semantic.fontWeight.body" "Semantic.Font weight.Weight-body",
  .number "semantic.fontWeight.button" "Semantic.Font weight.Weight-button",
  .number "semantic.lineHeight.heading" "Semantic.Line height.Line-Height-heading",
  .number "semantic.lineHeight.body" "Semantic.Line height.Line-Height-body",
  .number "semantic.lineHeight.uiLabel" "Semantic.Line height.Line-Height-UI-label",
  .number "semantic.letterSpacing.heading" "Semantic.Letter spacing.Tracking-heading",
  .number "semantic.letterSpacing.body" "Semantic.Letter spacing.Tracking-body",
  .number "semantic.letterSpacing.label" "Semantic.Letter spacing.Tracking-label",
  .number "semantic.paragraphSpacing.body" "Semantic.Paragraph spacing.Para-body",
  .number "semantic.paragraphSpacing.editorial" "Semantic.Paragraph spacing.Para-editorial",
  .number "semantic.paragraphIndent.editorial" "Semantic.Paragraph indent.Indent-editorial"]

def layout : List Field := [
  .number "semantic.borderRadius.small" "Semantic.Border radius.Radius-Small",
  .number "semantic.borderRadius.medium" "Semantic.Border radius.Radius-Medium",
  .number "semantic.borderRadius.large" "Semantic.Border radius.Radius-Large",
  .number "semantic.borderRadius.full" "Primitive.Border radius.Radius-Full",
  .number "semantic.spacing.xs" "Primitive.Spacing.050",
  .number "semantic.spacing.sm" "Primitive.Spacing.100",
  .number "semantic.spacing.md" "Primitive.Spacing.150",
  .number "semantic.spacing.lg" "Primitive.Spacing.200",
  .number "semantic.spacing.xl" "Primitive.Spacing.300",
  .constant "semantic.borderWidth.thin" (decimal ⟨1, 0⟩),
  .number "semantic.borderWidth.medium" "Primitive.Spacing.025",
  .constant "semantic.elevation.none" (decimal ⟨0, 0⟩),
  .constant "semantic.elevation.xs" (decimal ⟨1, 0⟩),
  .constant "semantic.elevation.sm" (decimal ⟨2, 0⟩),
  .constant "semantic.elevation.md" (decimal ⟨3, 0⟩),
  .constant "semantic.elevation.lg" (decimal ⟨4, 0⟩),
  .constant "semantic.elevation.xl" (decimal ⟨6, 0⟩),
  .number "semantic.size.xs" "Primitive.Spacing.025",
  .number "semantic.size.sm" "Primitive.Spacing.050",
  .number "semantic.size.md" "Primitive.Spacing.200",
  .number "semantic.size.lg" "Primitive.Spacing.300",
  .number "semantic.size.xl" "Primitive.Spacing.400",
  .number "semantic.size.xxl" "Primitive.Spacing.600",
  .number "semantic.size.xxxl" "Primitive.Spacing.800",
  .constant "semantic.opacity.disabled" (decimal ⟨4, -1⟩),
  .constant "semantic.opacity.overlay" (decimal ⟨5, -1⟩)]

def button : List Field := [
  .number "component.button.paddingHorizontal" "Component.Button.Padding-Horizontal",
  .number "component.button.paddingVertical" "Component.Button.Padding-Vertical",
  .number "component.button.gap" "Component.Button.Gap",
  .number "component.button.cornerRadius" "Component.Button.Corner-Radius",
  .number "component.button.borderWidth" "Component.Button.Border-Width",
  .number "component.button.textSize" "Component.Button.Text-Size",
  .number "component.button.fontWeight" "Component.Button.Font-Weight",
  .number "component.button.lineHeight" "Component.Button.Line-Height",
  .text "component.button.fontFamily" "Component.Button.Font-Family",
  .text "component.button.filled.background" "Component.Button.Filled.Background",
  .text "component.button.filled.content" "Component.Button.Filled.Content",
  .text "component.button.outline.background" "Component.Button.Outline.Background",
  .text "component.button.outline.border" "Component.Button.Outline.Border",
  .text "component.button.outline.content" "Component.Button.Outline.Content",
  .text "component.button.text.background" "Component.Button.Text.Background",
  .text "component.button.text.content" "Component.Button.Text.Content",
  .text "component.button.state.hoverBackground" "Component.Button.State.Hover-Background",
  .text "component.button.state.pressedBackground" "Component.Button.State.Pressed-Background",
  .text "component.button.state.disabledBackground" "Component.Button.State.Disabled-Background",
  .text "component.button.state.disabledContent" "Component.Button.State.Disabled-Content"]

def card : List Field := [
  .number "component.card.padding" "Component.Card.Padding",
  .number "component.card.gap" "Component.Card.Gap",
  .text "component.card.background" "Component.Card.Background",
  .text "component.card.stroke" "Component.Card.Stroke",
  .number "component.card.strokeWidth" "Component.Card.Stroke-Width",
  .number "component.card.cornerRadius" "Component.Card.Corner-Radius",
  .number "component.card.elevation" "Component.Card.Elevation",
  .number "component.card.headingSize" "Component.Card.Heading-Size",
  .number "component.card.headingWeight" "Component.Card.Heading-Weight",
  .text "component.card.headingFontFamily" "Component.Card.Heading-Font-Family",
  .copy "component.card.headingColor" "semantic.color.onSurface",
  .number "component.card.bodySize" "Component.Card.Body-Size",
  .number "component.card.bodyWeight" "Component.Card.Body-Weight",
  .text "component.card.bodyFontFamily" "Component.Card.Body-Font-Family",
  .copy "component.card.bodyColor" "semantic.color.onSurfaceMuted"]

def textField : List Field := [
  .copy "component.textField.paddingHorizontal" "semantic.spacing.md",
  .copy "component.textField.paddingVertical" "semantic.spacing.sm",
  .copy "component.textField.cornerRadius" "semantic.borderRadius.medium",
  .copy "component.textField.borderWidth" "semantic.borderWidth.medium",
  .copy "component.textField.background" "semantic.color.surface",
  .copy "component.textField.borderColor" "semantic.color.border",
  .copy "component.textField.focusBorderColor" "semantic.color.primary",
  .copy "component.textField.errorBorderColor" "semantic.color.error",
  .copy "component.textField.textColor" "semantic.color.onSurface",
  .copy "component.textField.placeholderColor" "semantic.color.onSurfaceMuted",
  .copy "component.textField.textSize" "semantic.fontSize.body",
  .copy "component.textField.fontFamily" "semantic.fontFamily.interface",
  .copy "component.textField.labelColor" "semantic.color.onSurface",
  .copy "component.textField.labelSize" "semantic.fontSize.small",
  .copy "component.textField.helperColor" "semantic.color.onSurfaceMuted",
  .copy "component.textField.helperSize" "semantic.fontSize.small",
  .copy "component.textField.errorColor" "semantic.color.error"]

def checkbox : List Field := [
  .copy "component.checkbox.size" "semantic.size.md",
  .copy "component.checkbox.cornerRadius" "semantic.borderRadius.small",
  .copy "component.checkbox.borderWidth" "semantic.borderWidth.medium",
  .copy "component.checkbox.gap" "semantic.spacing.sm",
  .copy "component.checkbox.borderColor" "semantic.color.border",
  .copy "component.checkbox.checkedBackground" "semantic.color.primary",
  .copy "component.checkbox.checkedIconColor" "semantic.color.onPrimary",
  .copy "component.checkbox.labelColor" "semantic.color.onSurface",
  .copy "component.checkbox.labelSize" "semantic.fontSize.body",
  .copy "component.checkbox.labelFontFamily" "semantic.fontFamily.interface",
  .copy "component.checkbox.disabledOpacity" "semantic.opacity.disabled"]

def fab : List Field := [
  .copy "component.fab.size" "semantic.size.xxl",
  .copy "component.fab.cornerRadius" "semantic.borderRadius.full",
  .copy "component.fab.background" "semantic.color.primary",
  .copy "component.fab.iconColor" "semantic.color.onPrimary",
  .copy "component.fab.iconSize" "semantic.size.lg",
  .copy "component.fab.hoverBackground" "semantic.color.primaryHover",
  .copy "component.fab.pressedBackground" "semantic.color.primaryPressed",
  .copy "component.fab.elevation" "semantic.elevation.lg",
  .copy "component.fab.extendedPaddingHorizontal" "semantic.spacing.lg",
  .copy "component.fab.extendedGap" "semantic.spacing.sm"]

def autocomplete : List Field := [
  .copy "component.autocomplete.dropdownBackground" "semantic.color.surface",
  .copy "component.autocomplete.dropdownCornerRadius" "semantic.borderRadius.medium",
  .copy "component.autocomplete.dropdownElevation" "semantic.elevation.sm",
  .copy "component.autocomplete.optionHoverBackground" "semantic.color.surfaceContainer",
  .copy "component.autocomplete.optionTextColor" "semantic.color.onSurface",
  .copy "component.autocomplete.optionTextSize" "semantic.fontSize.body",
  .copy "component.autocomplete.optionPaddingHorizontal" "semantic.spacing.lg",
  .copy "component.autocomplete.optionPaddingVertical" "semantic.spacing.sm",
  .copy "component.autocomplete.fontFamily" "semantic.fontFamily.interface"]

def select : List Field := [
  .copy "component.select.dropdownBackground" "semantic.color.surface",
  .copy "component.select.dropdownCornerRadius" "semantic.borderRadius.medium",
  .copy "component.select.dropdownElevation" "semantic.elevation.sm",
  .copy "component.select.optionHoverBackground" "semantic.color.surfaceContainer",
  .copy "component.select.indicatorColor" "semantic.color.onSurfaceMuted",
  .copy "component.select.optionTextColor" "semantic.color.onSurface",
  .copy "component.select.optionTextSize" "semantic.fontSize.body",
  .copy "component.select.optionPaddingHorizontal" "semantic.spacing.lg",
  .copy "component.select.optionPaddingVertical" "semantic.spacing.sm",
  .copy "component.select.fontFamily" "semantic.fontFamily.interface",
  .copy "component.select.selectedOptionBackground" "semantic.color.primaryContainer"]

def switch : List Field := [
  .copy "component.switch.trackWidth" "semantic.size.xxl",
  .copy "component.switch.trackHeight" "semantic.size.lg",
  .copy "component.switch.trackCornerRadius" "semantic.borderRadius.full",
  .copy "component.switch.trackOffBackground" "semantic.color.border",
  .copy "component.switch.trackOnBackground" "semantic.color.primary",
  .copy "component.switch.thumbSize" "semantic.size.md",
  .copy "component.switch.thumbCornerRadius" "semantic.borderRadius.full",
  .copy "component.switch.thumbOffBackground" "semantic.color.surface",
  .copy "component.switch.thumbOnBackground" "semantic.color.surface",
  .copy "component.switch.thumbOffset" "semantic.spacing.xs",
  .copy "component.switch.labelColor" "semantic.color.onSurface",
  .copy "component.switch.labelSize" "semantic.fontSize.body",
  .copy "component.switch.labelFontFamily" "semantic.fontFamily.interface",
  .copy "component.switch.gap" "semantic.spacing.sm"]

def badge : List Field := [
  .copy "component.badge.minSize" "semantic.size.md",
  .copy "component.badge.paddingHorizontal" "semantic.spacing.xs",
  .copy "component.badge.cornerRadius" "semantic.borderRadius.full",
  .copy "component.badge.background" "semantic.color.error",
  .copy "component.badge.contentColor" "semantic.color.onError",
  .copy "component.badge.textSize" "semantic.fontSize.small",
  .copy "component.badge.fontWeight" "semantic.fontWeight.button",
  .copy "component.badge.fontFamily" "semantic.fontFamily.interface"]

def chip : List Field := [
  .copy "component.chip.paddingHorizontal" "semantic.spacing.md",
  .copy "component.chip.paddingVertical" "semantic.spacing.xs",
  .copy "component.chip.gap" "semantic.spacing.xs",
  .copy "component.chip.cornerRadius" "semantic.borderRadius.small",
  .copy "component.chip.background" "semantic.color.surfaceContainer",
  .copy "component.chip.contentColor" "semantic.color.onSecondaryContainer",
  .copy "component.chip.selectedBackground" "semantic.color.primaryContainer",
  .copy "component.chip.selectedContentColor" "semantic.color.onPrimaryContainer",
  .copy "component.chip.borderWidth" "semantic.borderWidth.medium",
  .copy "component.chip.borderColor" "semantic.color.border",
  .copy "component.chip.textSize" "semantic.fontSize.small",
  .copy "component.chip.fontFamily" "semantic.fontFamily.interface"]

def divider : List Field := [
  .copy "component.divider.color" "semantic.color.border",
  .copy "component.divider.thickness" "semantic.borderWidth.thin",
  .copy "component.divider.margin" "semantic.spacing.sm"]

def icon : List Field := [
  .copy "component.icon.sizeSmall" "semantic.size.md",
  .copy "component.icon.sizeMedium" "semantic.size.lg",
  .copy "component.icon.sizeLarge" "semantic.size.xl"]

def table : List Field := [
  .copy "component.table.headerBackground" "semantic.color.surfaceContainer",
  .copy "component.table.headerTextColor" "semantic.color.onSurface",
  .copy "component.table.headerFontWeight" "semantic.fontWeight.heading",
  .copy "component.table.headerTextSize" "semantic.fontSize.small",
  .copy "component.table.cellTextColor" "semantic.color.onSurface",
  .copy "component.table.cellTextSize" "semantic.fontSize.body",
  .copy "component.table.cellPaddingHorizontal" "semantic.spacing.md",
  .copy "component.table.cellPaddingVertical" "semantic.spacing.sm",
  .copy "component.table.rowBorderColor" "semantic.color.surfaceContainer",
  .copy "component.table.rowBorderWidth" "semantic.borderWidth.thin",
  .copy "component.table.rowHoverBackground" "semantic.color.surfaceContainer",
  .copy "component.table.cornerRadius" "semantic.borderRadius.medium",
  .copy "component.table.fontFamily" "semantic.fontFamily.interface"]

def alert : List Field := [
  .copy "component.alert.padding" "semantic.spacing.lg",
  .copy "component.alert.gap" "semantic.spacing.sm",
  .copy "component.alert.cornerRadius" "semantic.borderRadius.medium",
  .copy "component.alert.borderWidth" "semantic.borderWidth.medium",
  .copy "component.alert.background" "semantic.color.surfaceContainer",
  .copy "component.alert.borderColor" "semantic.color.border",
  .copy "component.alert.titleColor" "semantic.color.onSurface",
  .copy "component.alert.bodyColor" "semantic.color.onSurface",
  .copy "component.alert.iconColor" "semantic.color.onSurface",
  .copy "component.alert.fontFamily" "semantic.fontFamily.interface",
  .copy "component.alert.iconSize" "semantic.size.lg",
  .copy "component.alert.titleSize" "semantic.fontSize.body",
  .copy "component.alert.titleFontWeight" "semantic.fontWeight.heading",
  .copy "component.alert.bodySize" "semantic.fontSize.small"]

def backdrop : List Field := [
  .copy "component.backdrop.color" "semantic.color.overlay",
  .copy "component.backdrop.opacity" "semantic.opacity.overlay"]

def skeleton : List Field := [
  .copy "component.skeleton.background" "semantic.color.surfaceContainer",
  .copy "component.skeleton.highlight" "semantic.color.surfaceContainer",
  .copy "component.skeleton.cornerRadius" "semantic.borderRadius.small",
  .copy "component.skeleton.circleSize" "semantic.size.xl"]

def snackbar : List Field := [
  .copy "component.snackbar.background" "semantic.color.primary",
  .copy "component.snackbar.contentColor" "semantic.color.onPrimary",
  .copy "component.snackbar.actionColor" "semantic.color.primaryHover",
  .copy "component.snackbar.padding" "semantic.spacing.lg",
  .copy "component.snackbar.gap" "semantic.spacing.sm",
  .copy "component.snackbar.cornerRadius" "semantic.borderRadius.medium",
  .copy "component.snackbar.elevation" "semantic.elevation.md",
  .copy "component.snackbar.textSize" "semantic.fontSize.body",
  .copy "component.snackbar.fontWeight" "semantic.fontWeight.body",
  .copy "component.snackbar.fontFamily" "semantic.fontFamily.interface"]

def dialog : List Field := [
  .copy "component.dialog.background" "semantic.color.surface",
  .copy "component.dialog.cornerRadius" "semantic.borderRadius.large",
  .copy "component.dialog.padding" "semantic.spacing.xl",
  .copy "component.dialog.gap" "semantic.spacing.lg",
  .copy "component.dialog.elevation" "semantic.elevation.xl",
  .copy "component.dialog.titleSize" "semantic.fontSize.h3",
  .copy "component.dialog.titleFontWeight" "semantic.fontWeight.heading",
  .copy "component.dialog.titleFontFamily" "semantic.fontFamily.interface",
  .copy "component.dialog.titleColor" "semantic.color.onSurface",
  .copy "component.dialog.bodySize" "semantic.fontSize.body",
  .copy "component.dialog.bodyFontFamily" "semantic.fontFamily.interface",
  .copy "component.dialog.bodyColor" "semantic.color.onSurface"]

def appBar : List Field := [
  .copy "component.appBar.height" "semantic.size.xxxl",
  .copy "component.appBar.paddingHorizontal" "semantic.spacing.lg",
  .copy "component.appBar.background" "semantic.color.surface",
  .copy "component.appBar.titleColor" "semantic.color.onSurface",
  .copy "component.appBar.titleSize" "semantic.fontSize.h3",
  .copy "component.appBar.titleFontWeight" "semantic.fontWeight.heading",
  .copy "component.appBar.titleFontFamily" "semantic.fontFamily.interface",
  .copy "component.appBar.iconColor" "semantic.color.onSurface",
  .copy "component.appBar.borderColor" "semantic.color.borderSubtle",
  .copy "component.appBar.elevation" "semantic.elevation.none"]

def link : List Field := [
  .copy "component.link.color" "semantic.color.primary",
  .copy "component.link.hoverColor" "semantic.color.primaryHover",
  .copy "component.link.visitedColor" "semantic.color.onSurfaceMuted",
  .copy "component.link.underlineOffset" "semantic.size.xs",
  .copy "component.link.fontWeight" "semantic.fontWeight.body"]

def speedDial : List Field := [
  .copy "component.speedDial.actionSize" "semantic.size.xl",
  .copy "component.speedDial.actionBackground" "semantic.color.surfaceContainer",
  .copy "component.speedDial.actionIconColor" "semantic.color.onSurface",
  .copy "component.speedDial.actionIconSize" "semantic.size.lg",
  .copy "component.speedDial.actionCornerRadius" "semantic.borderRadius.full",
  .copy "component.speedDial.gap" "semantic.spacing.sm",
  .copy "component.speedDial.actionElevation" "semantic.elevation.sm"]

def semantic : List Field := colors ++ typography ++ layout

def component : List Field :=
  button ++ card ++ textField ++ checkbox ++ fab ++ autocomplete ++ select ++ switch ++ badge ++
    chip ++ divider ++ icon ++ table ++ alert ++ backdrop ++ skeleton ++ snackbar ++ dialog ++
    appBar ++ link ++ speedDial

/-- Every field, the semantic ones first. -/
def rows : List Field := semantic ++ component

end DesignTokens.Theme.Table
