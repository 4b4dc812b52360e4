import DesignTokens.Theme.Error

/-! The tier of components: one record for each kind of widget. -/

namespace DesignTokens.Theme.Component

def buttonVariant : Schema := .record "ButtonVariantTokens" [
  ("background", .text), ("content", .text)]

def buttonOutline : Schema := .record "ButtonOutlineTokens" [
  ("background", .text), ("border", .text), ("content", .text)]

def buttonState : Schema := .record "ButtonStateTokens" [
  ("hoverBackground", .text), ("pressedBackground", .text), ("disabledBackground", .text),
  ("disabledContent", .text)]

def button : Schema := .record "ButtonTokens" [
  ("paddingHorizontal", .number), ("paddingVertical", .number), ("gap", .number),
  ("cornerRadius", .number), ("borderWidth", .number), ("textSize", .number),
  ("fontWeight", .number), ("lineHeight", .number), ("fontFamily", .text),
  ("filled", buttonVariant), ("outline", buttonOutline), ("text", buttonVariant),
  ("state", buttonState)]

def card : Schema := .record "CardTokens" [
  ("padding", .number), ("gap", .number), ("background", .text), ("stroke", .text),
  ("strokeWidth", .number), ("cornerRadius", .number), ("elevation", .number),
  ("headingSize", .number), ("headingWeight", .number), ("headingFontFamily", .text),
  ("headingColor", .text), ("bodySize", .number), ("bodyWeight", .number),
  ("bodyFontFamily", .text), ("bodyColor", .text)]

def textField : Schema := .record "TextFieldTokens" [
  ("paddingHorizontal", .number), ("paddingVertical", .number), ("cornerRadius", .number),
  ("borderWidth", .number), ("background", .text), ("borderColor", .text),
  ("focusBorderColor", .text), ("errorBorderColor", .text), ("textColor", .text),
  ("placeholderColor", .text), ("textSize", .number), ("fontFamily", .text), ("labelColor", .text),
  ("labelSize", .number), ("helperColor", .text), ("helperSize", .number), ("errorColor", .text)]

def checkbox : Schema := .record "CheckboxTokens" [
  ("size", .number), ("cornerRadius", .number), ("borderWidth", .number), ("gap", .number),
  ("borderColor", .text), ("checkedBackground", .text), ("checkedIconColor", .text),
  ("labelColor", .text), ("labelSize", .number), ("labelFontFamily", .text),
  ("disabledOpacity", .number)]

def fab : Schema := .record "FabTokens" [
  ("size", .number), ("cornerRadius", .number), ("background", .text), ("iconColor", .text),
  ("iconSize", .number), ("hoverBackground", .text), ("pressedBackground", .text),
  ("elevation", .number), ("extendedPaddingHorizontal", .number), ("extendedGap", .number)]

def autocomplete : Schema := .record "AutocompleteTokens" [
  ("dropdownBackground", .text), ("dropdownCornerRadius", .number), ("dropdownElevation", .number),
  ("optionHoverBackground", .text), ("optionTextColor", .text), ("optionTextSize", .number),
  ("optionPaddingHorizontal", .number), ("optionPaddingVertical", .number), ("fontFamily", .text)]

def select : Schema := .record "SelectTokens" [
  ("dropdownBackground", .text), ("dropdownCornerRadius", .number), ("dropdownElevation", .number),
  ("optionHoverBackground", .text), ("indicatorColor", .text), ("optionTextColor", .text),
  ("optionTextSize", .number), ("optionPaddingHorizontal", .number),
  ("optionPaddingVertical", .number), ("fontFamily", .text), ("selectedOptionBackground", .text)]

def switch : Schema := .record "SwitchTokens" [
  ("trackWidth", .number), ("trackHeight", .number), ("trackCornerRadius", .number),
  ("trackOffBackground", .text), ("trackOnBackground", .text), ("thumbSize", .number),
  ("thumbCornerRadius", .number), ("thumbOffBackground", .text), ("thumbOnBackground", .text),
  ("thumbOffset", .number), ("labelColor", .text), ("labelSize", .number),
  ("labelFontFamily", .text), ("gap", .number)]

def badge : Schema := .record "BadgeTokens" [
  ("minSize", .number), ("paddingHorizontal", .number), ("cornerRadius", .number),
  ("background", .text), ("contentColor", .text), ("textSize", .number), ("fontWeight", .number),
  ("fontFamily", .text)]

def chip : Schema := .record "ChipTokens" [
  ("paddingHorizontal", .number), ("paddingVertical", .number), ("gap", .number),
  ("cornerRadius", .number), ("background", .text), ("contentColor", .text),
  ("selectedBackground", .text), ("selectedContentColor", .text), ("borderWidth", .number),
  ("borderColor", .text), ("textSize", .number), ("fontFamily", .text)]

def divider : Schema := .record "DividerTokens" [
  ("color", .text), ("thickness", .number), ("margin", .number)]

def icon : Schema := .record "IconTokens" [
  ("sizeSmall", .number), ("sizeMedium", .number), ("sizeLarge", .number)]

def table : Schema := .record "TableTokens" [
  ("headerBackground", .text), ("headerTextColor", .text), ("headerFontWeight", .number),
  ("headerTextSize", .number), ("cellTextColor", .text), ("cellTextSize", .number),
  ("cellPaddingHorizontal", .number), ("cellPaddingVertical", .number), ("rowBorderColor", .text),
  ("rowBorderWidth", .number), ("rowHoverBackground", .text), ("cornerRadius", .number),
  ("fontFamily", .text)]

def alert : Schema := .record "AlertTokens" [
  ("padding", .number), ("gap", .number), ("cornerRadius", .number), ("borderWidth", .number),
  ("background", .text), ("borderColor", .text), ("titleColor", .text), ("bodyColor", .text),
  ("iconColor", .text), ("fontFamily", .text), ("iconSize", .number), ("titleSize", .number),
  ("titleFontWeight", .number), ("bodySize", .number)]

def backdrop : Schema := .record "BackdropTokens" [
  ("color", .text), ("opacity", .number)]

def skeleton : Schema := .record "SkeletonTokens" [
  ("background", .text), ("highlight", .text), ("cornerRadius", .number), ("circleSize", .number)]

def snackbar : Schema := .record "SnackbarTokens" [
  ("background", .text), ("contentColor", .text), ("actionColor", .text), ("padding", .number),
  ("gap", .number), ("cornerRadius", .number), ("elevation", .number), ("textSize", .number),
  ("fontWeight", .number), ("fontFamily", .text)]

def dialog : Schema := .record "DialogTokens" [
  ("background", .text), ("cornerRadius", .number), ("padding", .number), ("gap", .number),
  ("elevation", .number), ("titleSize", .number), ("titleFontWeight", .number),
  ("titleFontFamily", .text), ("titleColor", .text), ("bodySize", .number),
  ("bodyFontFamily", .text), ("bodyColor", .text)]

def appBar : Schema := .record "AppBarTokens" [
  ("height", .number), ("paddingHorizontal", .number), ("background", .text),
  ("titleColor", .text), ("titleSize", .number), ("titleFontWeight", .number),
  ("titleFontFamily", .text), ("iconColor", .text), ("borderColor", .text), ("elevation", .number)]

def link : Schema := .record "LinkTokens" [
  ("color", .text), ("hoverColor", .text), ("visitedColor", .text), ("underlineOffset", .number),
  ("fontWeight", .number)]

def speedDial : Schema := .record "SpeedDialTokens" [
  ("actionSize", .number), ("actionBackground", .text), ("actionIconColor", .text),
  ("actionIconSize", .number), ("actionCornerRadius", .number), ("gap", .number),
  ("actionElevation", .number)]

def component : Schema := .record "ComponentTokens" [
  ("button", button), ("card", card), ("textField", textField), ("checkbox", checkbox),
  ("fab", fab), ("autocomplete", autocomplete), ("select", select), ("switch", switch),
  ("badge", badge), ("chip", chip), ("divider", divider), ("icon", icon), ("table", table),
  ("alert", alert), ("backdrop", backdrop), ("skeleton", skeleton), ("snackbar", snackbar),
  ("dialog", dialog), ("appBar", appBar), ("link", link), ("speedDial", speedDial)]

end DesignTokens.Theme.Component
