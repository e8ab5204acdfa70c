import ServletContainer.Element.Source

/-! The collaborators that every server can be given by class name. -/
namespace ServletContainer.Pool

def withBuiltins (p : Pool) : Pool :=
  { servlets := p.servlets.register "webboard.EchoServlet" .echo
    filters := p.filters.register "webboard.AccessLogFilter" .accessLog
    listeners := p.listeners.register "webboard.LoggingListener" .silent }

end ServletContainer.Pool
